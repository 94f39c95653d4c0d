import TensorFuzz.Proofs.Check.Grammar

/-!
# Readers follow the grammar

Where a list of tokens derives an outcome at a level, the reader of the level comes to exactly that outcome,
whatever follows the tokens that does not go on with them. The loops of the levels that group to the left are
followed to the point where an operand is complete.
-/

namespace TensorFuzz.Check

/-- What is read is settled, and `rest` is left. -/
def finish {α : Type} (o : Except Error α) (rest : List Token) : Except Error (α × List Token) := do
  return (← o, rest)

section
variable {α β γ : Type} {o : Except Error α} {rest ts : List Token}

theorem finish_bind (f : α → Except Error β) : finish (o >>= f) rest = o >>= fun a => finish (f a) rest := by
  cases o <;> rfl

theorem bind_of_finish {act : Reader α} {f : α → Reader β} (h : act ts = finish o rest) :
    (act >>= f) ts = o >>= fun a => f a rest := by
  cases o with
  | ok a => exact bind_of_ok h
  | error e => exact bind_of_error h

theorem lift_map_bind (f : α → γ) (k : γ → Reader β) :
    ((liftM (f <$> o) : Reader γ) >>= k) = (liftM o : Reader α) >>= fun a => k (f a) := by
  cases o <;> rfl

theorem monadLift_finish (o : Except Error α) : (liftM o : Reader α) ts = finish o ts := rfl

end

/-! ## Tokens that stop a reader -/

/-- The rank of the tightest level that goes on when it meets the symbol. -/
def symbolRank : Symbol → Nat
  | .openParen | .at => 1
  | .openBracket => 2
  | .openBrace => 3
  | .hash => 4
  | .dot => 5
  | .caret => 7
  | .star | .slash => 9
  | .plus | .minus => 10
  | .equal | .unequal | .atMost | .atLeast | .less | .greater => 11
  | .ampersand => 13
  | .bar => 14
  | .question => 15
  | .closeParen | .closeBracket | .closeBrace | .comma | .colon | .bang => 17

/-- The rank of the tightest level that goes on when it meets the token. -/
def tokenRank : Token → Nat
  | .symbol symbol => symbolRank symbol
  | .query _ => 6
  | _ => 17

/-- The tokens do not go on with what is read at a level before them. -/
def Stops (level : Level) (ts : List Token) : Prop := ∀ token ∈ ts.head?, levelRank level < tokenRank token

theorem Stops.nil (level : Level) : Stops level [] := by simp [Stops]

theorem Stops.mono {level level' : Level} {ts : List Token} (h : Stops level ts)
    (hle : levelRank level' ≤ levelRank level) : Stops level' ts :=
  fun token htoken => Nat.lt_of_le_of_lt hle (h token htoken)

theorem stops_symbol {level : Level} {symbol : Symbol} (h : levelRank level < symbolRank symbol)
    (ts : List Token) : Stops level (.symbol symbol :: ts) := by
  rintro token ⟨⟩
  exact h

theorem Stops.head_ne {level : Level} {ts : List Token} (h : Stops level ts) {symbol : Symbol}
    (hle : symbolRank symbol ≤ levelRank level) : ts.head? ≠ some (.symbol symbol) := by
  intro hhead
  have := h _ hhead
  simp only [tokenRank] at this
  omega

/-! ## Single tokens -/

section
variable {symbol : Symbol} {symbols : List Symbol} {ts : List Token}

theorem eat_same (symbol : Symbol) (ts : List Token) : eat symbol (.symbol symbol :: ts) = .ok (true, ts) := by
  show (if symbol = symbol then _ else _ : Reader Bool) _ = _
  rw [if_pos rfl]
  rfl

theorem eat_other (h : ts.head? ≠ some (.symbol symbol)) : eat symbol ts = .ok (false, ts) := by
  match ts with
  | [] | .int _ :: _ | .float :: _ | .string :: _ | .ident _ :: _ | .query _ :: _ => rfl
  | .symbol s :: ts =>
    show (if s = symbol then _ else _ : Reader Bool) _ = _
    rw [if_neg fun hs => h (congrArg _ (congrArg _ hs))]
    rfl

theorem eatOneOf_same (h : symbol ∈ symbols) : eatOneOf symbols (.symbol symbol :: ts) = .ok (some symbol, ts) := by
  show (if symbol ∈ symbols then _ else _ : Reader (Option Symbol)) _ = _
  rw [if_pos h]
  rfl

theorem eatOneOf_other (h : ∀ symbol ∈ symbols, ts.head? ≠ some (.symbol symbol)) :
    eatOneOf symbols ts = .ok (none, ts) := by
  match ts with
  | [] | .int _ :: _ | .float :: _ | .string :: _ | .ident _ :: _ | .query _ :: _ => rfl
  | .symbol s :: ts =>
    show (if s ∈ symbols then _ else _ : Reader (Option Symbol)) _ = _
    rw [if_neg fun hs => h s hs rfl]
    rfl

theorem expect_same (symbol : Symbol) (ts : List Token) : expect symbol (.symbol symbol :: ts) = .ok ((), ts) := by
  rw [expect, bind_of_ok (eat_same symbol ts)]
  rfl

theorem ident_same (name : String) (ts : List Token) : ident (.ident name :: ts) = .ok (name, ts) := rfl

end

/-! ## First tokens -/

/-- The rank of the tightest level whose expressions may begin with the token. -/
def beginRank : Token → Nat
  | .int _ | .float | .string | .ident _ => 1
  | .symbol .openParen | .symbol .openBracket | .symbol .at => 1
  | .symbol .minus => 8
  | .symbol .bang => 12
  | _ => 17

variable {scope : Scope} {records : Registry}

theorem Derives.begins {level : Level} {ts : List Token} {o : Outcome} (h : Derives scope records level ts o) :
    ∃ token rest, ts = token :: rest ∧ beginRank token ≤ levelRank level := by
  have hleft {level level' : Level} {ts us : List Token} (hle : levelRank level' ≤ levelRank level)
      (ih : ∃ token rest, ts = token :: rest ∧ beginRank token ≤ levelRank level') :
      ∃ token rest, ts ++ us = token :: rest ∧ beginRank token ≤ levelRank level := by
    obtain ⟨token, rest, rfl, htoken⟩ := ih
    exact ⟨token, rest ++ us, rfl, Nat.le_trans htoken hle⟩
  induction h with
  | lift htighter _ ih =>
    obtain ⟨token, rest, rfl, htoken⟩ := ih
    exact ⟨token, rest, rfl, by rw [rank_tighter htighter]; omega⟩
  | int | float | string | bool | name | call | group | list | record => exact ⟨_, _, rfl, Nat.le_refl _⟩
  | negate | not => exact ⟨_, _, rfl, Nat.le_refl _⟩
  | element _ _ ih | slice _ _ _ _ _ ih | window _ _ _ _ _ _ _ _ ih | query _ ih | compare _ _ _ ih
  | select _ _ _ ih => exact hleft (by decide) ih
  | left _ _ _ _ _ ih => exact hleft (Nat.le_refl _) ih
  | right _ htighter _ _ ih => exact hleft (by rw [rank_tighter htighter]; omega) ih

/-- An expression does not begin with a symbol that only an operator of a looser level begins with. -/
theorem Derives.head_ne {level : Level} {ts rest : List Token} {o : Outcome} (h : Derives scope records level ts o)
    {symbol : Symbol} (hsymbol : levelRank level < beginRank (.symbol symbol)) :
    (ts ++ rest).head? ≠ some (.symbol symbol) := by
  obtain ⟨token, ts', rfl, htoken⟩ := h.begins
  rintro ⟨⟩
  omega

/-! ## Levels that group to the left -/

/-- The loop of a level that groups to the left: further operands of its operators, at most `fuel` of them. -/
def loop (operand : Reader Typed) (symbols : List Symbol) (combine : Symbol → Typed → Typed → Outcome) :
    Nat → Typed → Reader Typed
  | 0, left => return left
  | fuel + 1, left => do
    match ← eatOneOf symbols with
    | some symbol => loop operand symbols combine fuel (← combine symbol left (← operand))
    | none => return left

section
variable {operand : Reader Typed} {symbols : List Symbol} {combine : Symbol → Typed → Typed → Outcome}
  {left : Typed} {rest : List Token}

theorem loop_stop (hrest : ∀ symbol ∈ symbols, rest.head? ≠ some (.symbol symbol)) (fuel : Nat) :
    loop operand symbols combine fuel left rest = .ok (left, rest) := by
  cases fuel with
  | zero => rfl
  | succ fuel =>
    rw [loop, bind_of_ok (eatOneOf_other hrest)]
    rfl

theorem loop_step {symbol : Symbol} (hsymbol : symbol ∈ symbols) {us : List Token} {o : Outcome}
    (hoperand : operand us = finish o rest) (fuel : Nat) :
    loop operand symbols combine (fuel + 1) left (.symbol symbol :: us) =
      (do combine symbol left (← o)) >>= fun t => loop operand symbols combine fuel t rest := by
  rw [loop, bind_of_ok (eatOneOf_same hsymbol), bind_assoc]
  show (operand >>= fun right => liftM (combine symbol left right) >>= loop operand symbols combine fuel) us = _
  rw [bind_of_finish hoperand]
  exact bind_congr fun right => bind_of_finish (monadLift_finish _)

/-- One symbol is taken like the only one of a list. -/
theorem eat_bind_eq {α : Type} (symbol : Symbol) (taken : Reader α) (other : Reader α) :
    (do if ← eat symbol then taken else other) =
      (do
        match ← eatOneOf [symbol] with
        | some _ => taken
        | none => other) := by
  funext ts
  by_cases h : ts.head? = some (.symbol symbol)
  · obtain ⟨ts, rfl⟩ := List.head?_eq_some_iff.mp h
    rw [bind_of_ok (eat_same symbol ts), bind_of_ok (eatOneOf_same (List.mem_singleton_self symbol))]
    rfl
  · rw [bind_of_ok (eat_other h), bind_of_ok (eatOneOf_other (by simpa using h))]
    rfl

end

variable {inner : Readers}

theorem matmulTail_eq (fuel : Nat) (left : Typed) : matmulTail scope records inner fuel left =
    loop (slice scope records inner) [.hash] (fun _ l r => Typed.of <$> matrixProduct l.ty r.ty) fuel left := by
  induction fuel generalizing left with
  | zero => rfl
  | succ fuel ih =>
    rw [matmulTail, eat_bind_eq, loop]
    refine bind_congr fun found => ?_
    cases found with
    | none => rfl
    | some _ =>
      refine bind_congr fun right => ?_
      rw [lift_map_bind]
      exact bind_congr fun ty => ih _

theorem dotTail_eq (fuel : Nat) (left : Typed) : dotTail scope records inner fuel left =
    loop (matmul scope records inner) [.dot] (fun _ l r => Typed.of <$> dotProduct l.ty r.ty) fuel left := by
  induction fuel generalizing left with
  | zero => rfl
  | succ fuel ih =>
    rw [dotTail, eat_bind_eq, loop]
    refine bind_congr fun found => ?_
    cases found with
    | none => rfl
    | some _ =>
      refine bind_congr fun right => ?_
      rw [lift_map_bind]
      exact bind_congr fun ty => ih _

theorem productTail_eq (fuel : Nat) (left : Typed) : productTail scope records inner fuel left =
    loop (negate scope records inner) [.star, .slash] operate fuel left := by
  induction fuel generalizing left with
  | zero => rfl
  | succ fuel ih =>
    rw [productTail, loop]
    refine bind_congr fun found => ?_
    cases found with
    | none => rfl
    | some symbol => exact bind_congr fun right => bind_congr fun t => ih t

theorem sumTail_eq (fuel : Nat) (left : Typed) : sumTail scope records inner fuel left =
    loop (product scope records inner) [.plus, .minus] operate fuel left := by
  induction fuel generalizing left with
  | zero => rfl
  | succ fuel ih =>
    rw [sumTail, loop]
    refine bind_congr fun found => ?_
    cases found with
    | none => rfl
    | some symbol => exact bind_congr fun right => bind_congr fun t => ih t

theorem grammar_left {level operand : Level} {symbols : List Symbol}
    {combine : Symbol → Typed → Typed → Outcome} (hleft : leftGroup? level = some (symbols, combine))
    (htighter : level.tighter? = some operand) : grammar scope records inner level = (do
      let first ← grammar scope records inner operand
      loop (grammar scope records inner operand) symbols combine (← get).length first) := by
  cases level with
  | sum =>
    cases hleft
    cases htighter
    exact bind_congr fun first => bind_congr fun ts => sumTail_eq _ _
  | product =>
    cases hleft
    cases htighter
    exact bind_congr fun first => bind_congr fun ts => productTail_eq _ _
  | dot =>
    cases hleft
    cases htighter
    exact bind_congr fun first => bind_congr fun ts => dotTail_eq _ _
  | matmul =>
    cases hleft
    cases htighter
    exact bind_congr fun first => bind_congr fun ts => matmulTail_eq _ _
  | _ => cases hleft

theorem lift_connective (symbol : Symbol) (left right : Typed) :
    (liftM (connective symbol left right) : Reader Typed) = (do
      require left.ty .bool symbol.text
      require right.ty .bool symbol.text
      return .of .bool) := by
  unfold connective
  cases require left.ty .bool symbol.text with
  | error e => rfl
  | ok _ => cases require right.ty .bool symbol.text <;> rfl

theorem grammar_right {level operand : Level} {symbol : Symbol} {combine : Typed → Typed → Outcome}
    (hright : rightGroup? level = some (symbol, combine)) (htighter : level.tighter? = some operand) :
    grammar scope records inner level = (do
      let left ← grammar scope records inner operand
      if ← eat symbol then
        combine left (← inner level)
      else return left) := by
  cases level with
  | power =>
    cases hright
    cases htighter
    rfl
  | and =>
    cases hright
    cases htighter
    refine bind_congr fun left => bind_congr fun taken => ?_
    cases taken with
    | false => rfl
    | true => exact bind_congr fun right => (lift_connective .ampersand left right).symm
  | or =>
    cases hright
    cases htighter
    refine bind_congr fun left => bind_congr fun taken => ?_
    cases taken with
    | false => rfl
    | true => exact bind_congr fun right => (lift_connective .bar left right).symm
  | _ => cases hright

/-! ## Expressions of a tighter level -/

/-- The operators that a level that groups to the left goes on with. -/
theorem Stops.left_head_ne {level : Level} {rest : List Token} (h : Stops level rest) {symbols : List Symbol}
    {combine : Symbol → Typed → Typed → Outcome} (hleft : leftGroup? level = some (symbols, combine)) :
    ∀ symbol ∈ symbols, rest.head? ≠ some (.symbol symbol) := by
  intro symbol hsymbol
  refine h.head_ne ?_
  cases level <;> cases hleft <;> revert symbol <;> decide

theorem Stops.right_head_ne {level : Level} {rest : List Token} (h : Stops level rest) {symbol : Symbol}
    {combine : Typed → Typed → Outcome} (hright : rightGroup? level = some (symbol, combine)) :
    rest.head? ≠ some (.symbol symbol) := by
  refine h.head_ne ?_
  cases level <;> cases hright <;> decide

variable {ts rest : List Token} {o : Outcome}

theorem read_left {level operand : Level} {symbols : List Symbol} {combine : Symbol → Typed → Typed → Outcome}
    (hleft : leftGroup? level = some (symbols, combine)) (htighter : level.tighter? = some operand)
    (hread : grammar scope records inner operand ts = finish o rest) :
    grammar scope records inner level ts = o >>= fun t =>
      loop (grammar scope records inner operand) symbols combine rest.length t rest := by
  rw [grammar_left hleft htighter, bind_of_finish hread]
  rfl

theorem read_right {level operand : Level} {symbol : Symbol} {combine : Typed → Typed → Outcome}
    (hright : rightGroup? level = some (symbol, combine)) (htighter : level.tighter? = some operand)
    (hread : grammar scope records inner operand ts = finish o rest) (hrest : Stops level rest) :
    grammar scope records inner level ts = finish o rest := by
  rw [grammar_right hright htighter, bind_of_finish hread]
  refine bind_congr fun left => ?_
  rw [bind_of_ok (eat_other (hrest.right_head_ne hright))]
  rfl

/-- What is read at the tighter level is all that is read at the level, unless operators follow or lead. -/
theorem read_tighter {level tighter : Level} (htighter : level.tighter? = some tighter)
    (hread : grammar scope records inner tighter ts = finish o rest) (hrest : Stops level rest)
    (hhead : ∀ symbol, ts.head? = some (.symbol symbol) → beginRank (.symbol symbol) ≤ levelRank tighter) :
    grammar scope records inner level ts = finish o rest := by
  have hleft {symbols combine} (hleft : leftGroup? level = some (symbols, combine)) :
      grammar scope records inner level ts = finish o rest := by
    rw [read_left hleft htighter hread]
    exact bind_congr fun t => loop_stop (hrest.left_head_ne hleft) _
  have hlead {symbol} (hrank : levelRank tighter < beginRank (.symbol symbol)) :
      ts.head? ≠ some (.symbol symbol) := fun h => absurd (hhead symbol h) (by omega)
  cases level with
  | whole =>
    cases htighter
    exact hread
  | select =>
    cases htighter
    show (grammar scope records inner .or >>= _) _ = _
    rw [bind_of_finish hread]
    refine bind_congr fun condition => ?_
    rw [bind_of_ok (eat_other (hrest.head_ne (by decide)))]
    rfl
  | or => exact read_right rfl htighter hread hrest
  | and => exact read_right rfl htighter hread hrest
  | not =>
    cases htighter
    show (eat .bang >>= _) _ = _
    rw [bind_of_ok (eat_other (hlead (by decide)))]
    exact hread
  | compare =>
    cases htighter
    show (grammar scope records inner .sum >>= _) _ = _
    rw [bind_of_finish hread]
    refine bind_congr fun left => ?_
    rw [bind_of_ok (eatOneOf_other ?_)]
    · rfl
    · intro symbol hsymbol
      exact hrest.head_ne (by revert symbol; decide)
  | sum => exact hleft rfl
  | product => exact hleft rfl
  | negate =>
    cases htighter
    show (eat .minus >>= _) _ = _
    rw [bind_of_ok (eat_other (hlead (by decide)))]
    exact hread
  | power => exact read_right rfl htighter hread hrest
  | query =>
    cases htighter
    show (grammar scope records inner .dot >>= _) _ = _
    rw [bind_of_finish hread]
    refine bind_congr fun operand => ?_
    match rest with
    | [] | .int _ :: _ | .float :: _ | .string :: _ | .ident _ :: _ | .symbol _ :: _ => rfl
    | .query name :: _ => exact absurd (hrest _ rfl) (Nat.lt_irrefl _)
  | dot => exact hleft rfl
  | matmul => exact hleft rfl
  | slice =>
    cases htighter
    show (grammar scope records inner .element >>= _) _ = _
    rw [bind_of_finish hread]
    refine bind_congr fun source => ?_
    rw [bind_of_ok (eat_other (hrest.head_ne (by decide)))]
    rfl
  | element =>
    cases htighter
    show (grammar scope records inner .atom >>= _) _ = _
    rw [bind_of_finish hread]
    refine bind_congr fun source => ?_
    rw [bind_of_ok (eat_other (hrest.head_ne (by decide)))]
    rfl
  | atom => cases htighter

/-! ## Atoms -/

theorem atom_openParen (ts : List Token) : atom scope records inner (.symbol .openParen :: ts) =
    (do
      let typed ← inner .select
      expect .closeParen
      return typed : Reader Typed) ts := rfl

theorem atom_openBracket (ts : List Token) : atom scope records inner (.symbol .openBracket :: ts) =
    (do return .of (← listTy (← Check.list inner .closeBracket)) : Reader Typed) ts := rfl

theorem atom_at (ts : List Token) : atom scope records inner (.symbol .at :: ts) =
    (do
      let id ← ident
      expect .openBracket
      let values ← Check.list inner .closeBracket
      return .of (← recordTy records id values) : Reader Typed) ts := rfl

theorem atom_ident (name : String) (ts : List Token) : atom scope records inner (.ident name :: ts) =
    (do
      if name = "true" ∨ name = "false" then return .of .bool
      let ty ← reference scope inner name
      if ← eat .at then
        return .of (← fieldTy records ty (← ident))
      return .of ty : Reader Typed) ts := rfl

/-! ## Lists -/

theorem itemTys_cons (o : Outcome) (os : List Outcome) : itemTys (o :: os) = (do
    let t ← o
    let tys ← itemTys os
    return t.ty :: tys) := by
  rw [itemTys, List.mapM_cons, bind_assoc]
  rfl

theorem length_le_separated (parts : List (List Token)) : parts.length ≤ (separated parts).length + 1 := by
  induction parts with
  | nil => simp
  | cons part others ih =>
    cases others with
    | nil => simp [separated]
    | cons => simp [separated] at ih ⊢; omega

/-- The reader comes to the outcome of the tokens, whatever follows that does not go on with an expression of the
level. -/
def ReadsTo (read : Reader Typed) (level : Level) (ts : List Token) (o : Outcome) : Prop :=
  ∀ rest, Stops level rest → read (ts ++ rest) = finish o rest

/-- The readers of nested parts come to the outcomes of all items. -/
abbrev ReadsItems (inner : Readers) (items : List (List Token × Outcome)) : Prop :=
  ∀ item ∈ items, ReadsTo (inner .select) .select item.1 item.2

/-- No item begins with the symbol. -/
abbrev NoneBegins (symbol : Symbol) (items : List (List Token × Outcome)) : Prop :=
  ∀ item ∈ items, ∀ rest, (item.1 ++ rest).head? ≠ some (.symbol symbol)

theorem listTail_read {close : Symbol} (hclose : symbolRank close = 17) (hcomma : close ≠ .comma)
    {items : List (List Token × Outcome)} (hitems : ReadsItems inner items) (hne : items ≠ [])
    (rest : List Token) {fuel : Nat} (hfuel : items.length ≤ fuel) :
    listTail inner close fuel (separated (items.map (·.1)) ++ .symbol close :: rest) =
      finish (itemTys (items.map (·.2))) rest := by
  induction items generalizing fuel with
  | nil => exact absurd rfl hne
  | cons item items ih =>
    obtain ⟨fuel, rfl⟩ : ∃ n, fuel = n + 1 := ⟨fuel - 1, by simp at hfuel; omega⟩
    have hitem : ReadsTo (inner .select) .select item.1 item.2 := hitems item (by simp)
    cases items with
    | nil =>
      have hstop : Stops .select (.symbol close :: rest) := stops_symbol (by rw [hclose]; decide) rest
      simp only [List.map_cons, List.map_nil, separated]
      rw [listTail, bind_of_finish (hitem _ hstop), itemTys_cons, finish_bind]
      refine bind_congr fun t => ?_
      rw [bind_of_ok (eat_same close rest)]
      rfl
    | cons item' items =>
      have hstop : ∀ ts, Stops .select (.symbol .comma :: ts) := stops_symbol (by decide)
      have htail := ih (fun i hi => hitems i (List.mem_cons_of_mem _ hi)) (by simp) (by simpa using hfuel)
      simp only [List.map_cons, separated, List.append_assoc, List.cons_append] at htail ⊢
      rw [listTail, bind_of_finish (hitem _ (hstop _)), itemTys_cons, finish_bind]
      refine bind_congr fun t => ?_
      rw [bind_of_ok (eat_other (by simpa using hcomma.symm)), if_neg (by decide), bind_of_ok (expect_same _ _),
        bind_of_finish htail, finish_bind]
      rfl

theorem list_read {close : Symbol} (hclose : symbolRank close = 17) (hcomma : close ≠ .comma)
    {items : List (List Token × Outcome)} (hitems : ReadsItems inner items) (hhead : NoneBegins close items)
    (rest : List Token) :
    list inner close (separated (items.map (·.1)) ++ .symbol close :: rest) =
      finish (itemTys (items.map (·.2))) rest := by
  cases items with
  | nil =>
    show (eat close >>= _) (.symbol close :: rest) = _
    rw [bind_of_ok (eat_same close rest)]
    rfl
  | cons item items =>
    have hopen : (separated ((item :: items).map (·.1)) ++ .symbol close :: rest).head? ≠ some (.symbol close) := by
      have h := hhead item (by simp)
      cases items with
      | nil => exact h _
      | cons item' items =>
        simp only [List.map_cons, separated, List.append_assoc]
        exact h _
    rw [list, bind_of_ok (eat_other hopen)]
    refine listTail_read hclose hcomma hitems (by simp) rest ?_
    have := length_le_separated ((item :: items).map (·.1))
    simp at this ⊢
    omega

theorem bounds_read {lo step hi : List Token} {o₁ o₂ o₃ : Outcome} (hlo : ReadsTo (inner .select) .select lo o₁)
    (hstep : ReadsTo (inner .select) .select step o₂) (hhi : ReadsTo (inner .select) .select hi o₃)
    (rest : List Token) :
    bounds inner (lo ++ .symbol .colon :: (step ++ .symbol .colon :: (hi ++ .symbol .closeBrace :: rest))) =
      finish (spanOf o₁ o₂ o₃) (.symbol .closeBrace :: rest) := by
  have hstop {symbol : Symbol} (hsymbol : symbolRank symbol = 17) (ts : List Token) :
      Stops .select (.symbol symbol :: ts) := stops_symbol (by rw [hsymbol]; decide) ts
  rw [bounds, bind_of_finish (hlo _ (hstop rfl _)), spanOf, finish_bind]
  refine bind_congr fun lo => ?_
  rw [bind_of_ok (expect_same _ _), bind_of_finish (hstep _ (hstop rfl _)), finish_bind]
  refine bind_congr fun step => ?_
  rw [bind_of_ok (expect_same _ _), bind_of_finish (hhi _ (hstop rfl _)), finish_bind]
  refine bind_congr fun hi => ?_
  cases require lo.ty .int "subrange bound" <;> try rfl
  cases require step.ty .int "subrange bound" <;> try rfl
  cases require hi.ty .int "subrange bound" <;> try rfl
  cases lo.value <;> cases hi.value <;> rfl

/-! ## Readers of levels -/

/-- The reader of the level comes to the outcome. Where the level groups to the left, its loop is entered with
the outcome, and with fuel for what follows. -/
structure Reads (scope : Scope) (records : Registry) (inner : Readers) (level : Level) (ts : List Token)
    (o : Outcome) : Prop where
  complete : ReadsTo (grammar scope records inner level) level ts o
  loops : ∀ {symbols combine operand}, leftGroup? level = some (symbols, combine) →
    level.tighter? = some operand → ∀ rest, Stops operand rest → ∃ n, rest.length ≤ n ∧
      grammar scope records inner level (ts ++ rest) =
        o >>= fun t => loop (grammar scope records inner operand) symbols combine n t rest

theorem Reads.of_complete {level : Level} (hlevel : leftGroup? level = none)
    (h : ReadsTo (grammar scope records inner level) level ts o) : Reads scope records inner level ts o :=
  ⟨h, fun hleft => by rw [hlevel] at hleft; cases hleft⟩

theorem Reads.of_loops {level operand : Level} {symbols : List Symbol}
    {combine : Symbol → Typed → Typed → Outcome} (hleft : leftGroup? level = some (symbols, combine))
    (htighter : level.tighter? = some operand)
    (h : ∀ rest, Stops operand rest → ∃ n, rest.length ≤ n ∧ grammar scope records inner level (ts ++ rest) =
      o >>= fun t => loop (grammar scope records inner operand) symbols combine n t rest) :
    Reads scope records inner level ts o := by
  refine ⟨fun rest hrest => ?_, fun hleft' htighter' => ?_⟩
  · obtain ⟨n, -, heq⟩ := h rest (hrest.mono (by rw [rank_tighter htighter]; omega))
    rw [heq]
    exact bind_congr fun t => loop_stop (hrest.left_head_ne hleft) n
  · rw [hleft] at hleft'
    rw [htighter] at htighter'
    cases hleft'
    cases htighter'
    exact h

/-- An expression inside another one is read with one level of nesting less to go. -/
theorem reads_nested {level : Level} {fuel : Nat}
    (h : ∀ fuel, ts.length ≤ fuel → Reads scope records (readers scope records fuel) level ts o)
    (hfuel : ts.length < fuel) : ReadsTo (readers scope records fuel level) level ts o := by
  cases fuel with
  | zero => omega
  | succ fuel => exact (h fuel (by omega)).complete

theorem length_le_of_mem_separated {parts : List (List Token)} {part : List Token} (h : part ∈ parts) :
    part.length ≤ (separated parts).length := by
  induction parts with
  | nil => cases h
  | cons first others ih =>
    cases others with
    | nil => simp_all [separated]
    | cons =>
      simp only [separated, List.length_append, List.length_cons] at ih ⊢
      rcases List.mem_cons.mp h with rfl | h
      · omega
      · have := ih h
        omega

theorem parts_read {fuel : Nat} {items : List (List Token × Outcome)}
    (h : ∀ item ∈ items, ∀ fuel, item.1.length ≤ fuel →
      Reads scope records (readers scope records fuel) .select item.1 item.2)
    (hfuel : (separated (items.map (·.1))).length < fuel) : ReadsItems (readers scope records fuel) items := by
  intro item hitem
  have hmem : item.1 ∈ items.map (·.1) := List.mem_map.mpr ⟨item, hitem, rfl⟩
  have hlength := length_le_of_mem_separated hmem
  exact reads_nested (h item hitem) (by omega)

/-! ## Productions -/

/-- A label behind a value is read with it. -/
theorem label_read (ty : Ty) (label : Option String) (rest : List Token) (hrest : Stops .atom rest) :
    (do
      if ← eat .at then
        return .of (← fieldTy records ty (← ident))
      return .of ty : Reader Typed) (labelTokens label ++ rest) =
      finish (do return .of (← labelledTy records ty label)) rest := by
  cases label with
  | none =>
    show (eat .at >>= _) rest = _
    rw [bind_of_ok (eat_other (hrest.head_ne (by decide)))]
    rfl
  | some label =>
    show (eat .at >>= _) (.symbol .at :: .ident label :: rest) = _
    rw [bind_of_ok (eat_same _ _), if_pos rfl, bind_of_ok (ident_same _ _),
      bind_of_finish (monadLift_finish _), finish_bind]
    rfl

theorem stops_left {level operand : Level} {symbols : List Symbol} {combine : Symbol → Typed → Typed → Outcome}
    (hleft : leftGroup? level = some (symbols, combine)) (htighter : level.tighter? = some operand)
    {symbol : Symbol} (hsymbol : symbol ∈ symbols) (ts : List Token) : Stops operand (.symbol symbol :: ts) := by
  refine stops_symbol ?_ ts
  cases level <;> cases hleft <;> cases htighter <;> revert symbol <;> decide

theorem stops_right {level operand : Level} {symbol : Symbol} {combine : Typed → Typed → Outcome}
    (hright : rightGroup? level = some (symbol, combine)) (htighter : level.tighter? = some operand)
    (ts : List Token) : Stops operand (.symbol symbol :: ts) := by
  refine stops_symbol ?_ ts
  cases level <;> cases hright <;> cases htighter <;> decide

theorem leftGroup?_of_rightGroup? {level : Level} {symbol : Symbol} {combine : Typed → Typed → Outcome}
    (hright : rightGroup? level = some (symbol, combine)) : leftGroup? level = none := by
  cases level <;> cases hright <;> rfl

section
variable {us vs : List Token} {o' o'' : Outcome}

theorem lift_read {level tighter : Level} (htighter : level.tighter? = some tighter)
    (h : ReadsTo (grammar scope records inner tighter) tighter ts o)
    (hhead : ∀ rest symbol, (ts ++ rest).head? = some (.symbol symbol) →
      beginRank (.symbol symbol) ≤ levelRank tighter) :
    Reads scope records inner level ts o := by
  cases hleft : leftGroup? level with
  | none =>
    refine .of_complete hleft fun rest hrest => ?_
    exact read_tighter htighter (h rest (hrest.mono (by rw [rank_tighter htighter]; omega))) hrest (hhead rest)
  | some found =>
    exact .of_loops hleft htighter fun rest hrest =>
      ⟨rest.length, Nat.le_refl _, read_left hleft htighter (h rest hrest)⟩

theorem bool_read {name : String} (hname : name = "true" ∨ name = "false") :
    ReadsTo (grammar scope records inner .atom) .atom [.ident name] (.ok (.of .bool)) := by
  intro rest _
  show atom scope records inner (.ident name :: rest) = _
  rw [atom_ident, if_pos hname]
  rfl

theorem group_read (h : ReadsTo (inner .select) .select ts o) :
    ReadsTo (grammar scope records inner .atom) .atom (.symbol .openParen :: (ts ++ [.symbol .closeParen])) o := by
  intro rest _
  simp only [List.cons_append, List.append_assoc, List.nil_append]
  rw [grammar, atom_openParen, bind_of_finish (h _ (stops_symbol (by decide) rest))]
  refine bind_congr fun t => ?_
  rw [bind_of_ok (expect_same _ _)]
  rfl

section
variable {items : List (List Token × Outcome)}

theorem listLiteral_read (hitems : ReadsItems inner items) (hhead : NoneBegins .closeBracket items) :
    ReadsTo (grammar scope records inner .atom) .atom
      (.symbol .openBracket :: (separated (items.map (·.1)) ++ [.symbol .closeBracket]))
      (do return .of (← listTy (← itemTys (items.map (·.2))))) := by
  intro rest _
  simp only [List.cons_append, List.append_assoc, List.nil_append]
  rw [grammar, atom_openBracket, bind_of_finish (list_read rfl (by decide) hitems hhead rest), finish_bind]
  refine bind_congr fun tys => ?_
  rw [finish_bind, bind_of_finish (monadLift_finish _)]
  rfl

theorem record_read {id : String} (hitems : ReadsItems inner items) (hhead : NoneBegins .closeBracket items) :
    ReadsTo (grammar scope records inner .atom) .atom
      (.symbol .at :: .ident id :: .symbol .openBracket :: (separated (items.map (·.1)) ++ [.symbol .closeBracket]))
      (do return .of (← recordTy records id (← itemTys (items.map (·.2))))) := by
  intro rest _
  simp only [List.cons_append, List.append_assoc, List.nil_append]
  rw [grammar, atom_at, bind_of_ok (ident_same _ _), bind_of_ok (expect_same _ _),
    bind_of_finish (list_read rfl (by decide) hitems hhead rest), finish_bind]
  refine bind_congr fun tys => ?_
  rw [finish_bind, bind_of_finish (monadLift_finish _)]
  rfl

theorem name_read {name : String} {b : Binding} (label : Option String) (hname : name ≠ "true" ∧ name ≠ "false")
    (hlookup : scope.lookup? name = some b) (hfunction : b.isFunction = false) :
    ReadsTo (grammar scope records inner .atom) .atom (.ident name :: labelTokens label)
      (do return .of (← labelledTy records b.ty label)) := by
  intro rest hrest
  have hopen : (labelTokens label ++ rest).head? ≠ some (.symbol .openParen) := by
    cases label with
    | none => exact hrest.head_ne (by decide)
    | some label => simp [labelTokens]
  have hreference : reference scope inner name (labelTokens label ++ rest) =
      .ok (b.ty, labelTokens label ++ rest) := by
    simp only [reference, hlookup]
    rw [bind_of_ok (eat_other hopen), if_neg (by decide), hfunction]
    rfl
  rw [grammar, List.cons_append, atom_ident, if_neg (by simpa using hname), bind_of_ok hreference]
  exact label_read b.ty label rest hrest

theorem call_read {name : String} {b : Binding} (label : Option String) (hname : name ≠ "true" ∧ name ≠ "false")
    (hlookup : scope.lookup? name = some b) (hfunction : b.isFunction = true) (hitems : ReadsItems inner items)
    (hhead : NoneBegins .closeParen items) :
    ReadsTo (grammar scope records inner .atom) .atom
      (.ident name :: .symbol .openParen :: (separated (items.map (·.1)) ++ .symbol .closeParen :: labelTokens label))
      (do return .of (← labelledTy records (← callTy b (← itemTys (items.map (·.2)))) label)) := by
  intro rest hrest
  have hargs := list_read rfl (by decide) hitems hhead (labelTokens label ++ rest)
  have hreference : reference scope inner name (.symbol .openParen ::
      (separated (items.map (·.1)) ++ .symbol .closeParen :: (labelTokens label ++ rest))) =
      finish (do callTy b (← itemTys (items.map (·.2)))) (labelTokens label ++ rest) := by
    simp only [reference, hlookup]
    rw [bind_of_ok (eat_same _ _), if_pos rfl, hfunction, finish_bind]
    exact bind_of_finish hargs
  simp only [List.cons_append, List.append_assoc]
  rw [grammar, atom_ident, if_neg (by simpa using hname), bind_of_finish hreference, bind_assoc, finish_bind]
  refine bind_congr fun tys => ?_
  rw [finish_bind]
  exact bind_congr fun ty => label_read ty label rest hrest

end

theorem element_read (hsource : ReadsTo (grammar scope records inner .atom) .atom ts o)
    (hindex : ReadsTo (inner .select) .select us o') :
    ReadsTo (grammar scope records inner .element) .element
      (ts ++ .symbol .openBracket :: (us ++ [.symbol .closeBracket])) (do selection (← o) (← o')) := by
  intro rest _
  have hsource (us : List Token) : atom scope records inner (ts ++ .symbol .openBracket :: us) =
      finish o (.symbol .openBracket :: us) := hsource _ (stops_symbol (by decide) us)
  simp only [List.cons_append, List.append_assoc, List.nil_append]
  rw [grammar, element, bind_of_finish (hsource _), finish_bind]
  refine bind_congr fun source => ?_
  rw [bind_of_ok (eat_same _ _), if_pos rfl, bind_of_finish (hindex _ (stops_symbol (by decide) _)), finish_bind]
  refine bind_congr fun index => ?_
  rw [bind_of_ok (expect_same _ _), selection, finish_bind, bind_of_finish (monadLift_finish _)]
  refine bind_congr fun _ => ?_
  rw [bind_of_finish (monadLift_finish _), finish_bind]
  rfl

section
variable {lo step hi : List Token} {o₁ o₂ o₃ : Outcome} {kind : Kind}
  (hsource : ReadsTo (grammar scope records inner .element) .element ts o)
  (hlo : ReadsTo (inner .select) .select lo o₁) (hstep : ReadsTo (inner .select) .select step o₂)
  (hhi : ReadsTo (inner .select) .select hi o₃)
include hsource hlo hstep hhi

theorem slice_read (hty : ∀ source, o = .ok source → ∃ length, source.ty = .vector kind length) :
    ReadsTo (grammar scope records inner .slice) .slice (ts ++ braced lo step hi)
      (do
        let _ ← o
        return .of (sliceTy kind (← spanOf o₁ o₂ o₃))) := by
  intro rest _
  have hsource (us : List Token) : element scope records inner (ts ++ .symbol .openBrace :: us) =
      finish o (.symbol .openBrace :: us) := hsource _ (stops_symbol (by decide) us)
  simp only [braced, List.cons_append, List.append_assoc, List.nil_append]
  rw [grammar, slice, bind_of_finish (hsource _), finish_bind]
  cases o with
  | error e => rfl
  | ok source =>
    obtain ⟨length, heq⟩ := hty source rfl
    rw [ok_bind, ok_bind, bind_of_ok (eat_same _ _), if_pos rfl]
    simp only [heq]
    rw [bind_of_finish (bounds_read hlo hstep hhi rest), finish_bind]
    refine bind_congr fun count => ?_
    rw [bind_of_ok (expect_same _ _)]
    rfl

theorem window_read {lo' step' hi' : List Token} {o₁' o₂' o₃' : Outcome}
    (hlo' : ReadsTo (inner .select) .select lo' o₁') (hstep' : ReadsTo (inner .select) .select step' o₂')
    (hhi' : ReadsTo (inner .select) .select hi' o₃')
    (hty : ∀ source, o = .ok source → ∃ rows cols, source.ty = .matrix kind rows cols) :
    ReadsTo (grammar scope records inner .slice) .slice (ts ++ (braced lo step hi ++ braced lo' step' hi'))
      (do
        let _ ← o
        let rows ← spanOf o₁ o₂ o₃
        return .of (windowTy kind rows (← spanOf o₁' o₂' o₃'))) := by
  intro rest _
  have hsource (us : List Token) : element scope records inner (ts ++ .symbol .openBrace :: us) =
      finish o (.symbol .openBrace :: us) := hsource _ (stops_symbol (by decide) us)
  simp only [braced, List.cons_append, List.append_assoc, List.nil_append]
  rw [grammar, slice, bind_of_finish (hsource _), finish_bind]
  cases o with
  | error e => rfl
  | ok source =>
    obtain ⟨rows, cols, heq⟩ := hty source rfl
    rw [ok_bind, ok_bind, bind_of_ok (eat_same _ _), if_pos rfl]
    simp only [heq]
    rw [bind_of_finish (bounds_read hlo hstep hhi _), finish_bind]
    refine bind_congr fun rows => ?_
    rw [bind_of_ok (expect_same _ _), bind_of_ok (expect_same _ _),
      bind_of_finish (bounds_read hlo' hstep' hhi' rest), finish_bind]
    refine bind_congr fun cols => ?_
    rw [bind_of_ok (expect_same _ _)]
    rfl

end

/-- The loop goes on to one more operand, with one step of its fuel less. -/
theorem leftGroup_read {level operand : Level} {symbols : List Symbol}
    {combine : Symbol → Typed → Typed → Outcome} {symbol : Symbol} (hleft : leftGroup? level = some (symbols, combine))
    (htighter : level.tighter? = some operand) (hsymbol : symbol ∈ symbols) (h : Reads scope records inner level ts o)
    (h' : ReadsTo (grammar scope records inner operand) operand us o') :
    Reads scope records inner level (ts ++ .symbol symbol :: us) (do combine symbol (← o) (← o')) := by
  refine .of_loops hleft htighter fun rest hrest => ?_
  have hstop : Stops operand (.symbol symbol :: (us ++ rest)) := stops_left hleft htighter hsymbol _
  obtain ⟨n, hn, heq⟩ := h.loops hleft htighter _ hstop
  rw [List.length_cons, List.length_append] at hn
  obtain ⟨n, rfl⟩ : ∃ m, n = m + 1 := ⟨n - 1, by omega⟩
  refine ⟨n, by omega, ?_⟩
  rw [List.append_assoc, List.cons_append, heq, bind_assoc]
  exact bind_congr fun t => loop_step hsymbol (h' rest hrest) n

theorem rightGroup_read {level operand : Level} {symbol : Symbol} {combine : Typed → Typed → Outcome}
    (hright : rightGroup? level = some (symbol, combine)) (htighter : level.tighter? = some operand)
    (h : ReadsTo (grammar scope records inner operand) operand ts o) (h' : ReadsTo (inner level) level us o') :
    ReadsTo (grammar scope records inner level) level (ts ++ .symbol symbol :: us)
      (do combine (← o) (← o')) := by
  intro rest hrest
  have hstop : Stops operand (.symbol symbol :: (us ++ rest)) := stops_right hright htighter _
  rw [List.append_assoc, List.cons_append, grammar_right hright htighter, bind_of_finish (h _ hstop), finish_bind]
  refine bind_congr fun left => ?_
  rw [bind_of_ok (eat_same _ _), if_pos rfl, bind_of_finish (h' rest hrest), finish_bind]
  rfl

theorem query_read {name : String} (h : ReadsTo (grammar scope records inner .dot) .dot ts o) :
    ReadsTo (grammar scope records inner .query) .query (ts ++ [.query name]) (do sizeQuery name (← o).ty) := by
  intro rest _
  have hstop : Stops .dot (.query name :: rest) := by
    rintro token ⟨⟩
    exact Nat.lt_succ_self _
  have hoperand : dot scope records inner (ts ++ .query name :: rest) = finish o (.query name :: rest) := h _ hstop
  rw [grammar, List.append_assoc, List.cons_append, List.nil_append, query, bind_of_finish hoperand, finish_bind]
  rfl

theorem negate_read (h : ReadsTo (inner .negate) .negate ts o) :
    ReadsTo (grammar scope records inner .negate) .negate (.symbol .minus :: ts) (do negation (← o)) := by
  intro rest hrest
  rw [grammar, List.cons_append, negate, bind_of_ok (eat_same _ _), if_pos rfl, bind_of_finish (h rest hrest),
    finish_bind]
  refine bind_congr fun operand => ?_
  unfold negation
  cases operand.ty.isNumber <;> rfl

theorem compare_read {symbol : Symbol} (hsymbol : symbol ∈ comparisons)
    (h : ReadsTo (grammar scope records inner .sum) .sum ts o)
    (h' : ReadsTo (grammar scope records inner .sum) .sum us o') :
    ReadsTo (grammar scope records inner .compare) .compare (ts ++ .symbol symbol :: us)
      (do comparison symbol (← o) (← o')) := by
  intro rest hrest
  have hleft : sum scope records inner (ts ++ .symbol symbol :: (us ++ rest)) =
      finish o (.symbol symbol :: (us ++ rest)) := h _ (stops_symbol (by revert symbol; decide) _)
  have hright : sum scope records inner (us ++ rest) = finish o' rest := h' rest (hrest.mono (by decide))
  rw [grammar, List.append_assoc, List.cons_append, compare, bind_of_finish hleft, finish_bind]
  refine bind_congr fun left => ?_
  rw [bind_of_ok (eatOneOf_same hsymbol), finish_bind]
  show (sum scope records inner >>= _) _ = _
  rw [bind_of_finish hright]
  refine bind_congr fun right => ?_
  unfold comparison
  cases left.ty.isNumber
  · rfl
  · cases require right.ty left.ty symbol.text <;> rfl

theorem not_read (h : ReadsTo (grammar scope records inner .compare) .compare ts o) :
    ReadsTo (grammar scope records inner .not) .not (.symbol .bang :: ts)
      (do
        require (← o).ty .bool "!"
        return .of .bool) := by
  intro rest hrest
  have hoperand : compare scope records inner (ts ++ rest) = finish o rest := h rest (hrest.mono (by decide))
  rw [grammar, List.cons_append, not, bind_of_ok (eat_same _ _), if_pos rfl, bind_of_finish hoperand, finish_bind]
  refine bind_congr fun operand => ?_
  cases require operand.ty .bool "!" <;> rfl

theorem select_read (h : ReadsTo (grammar scope records inner .or) .or ts o)
    (h' : ReadsTo (grammar scope records inner .or) .or us o')
    (h'' : ReadsTo (grammar scope records inner .or) .or vs o'') :
    ReadsTo (grammar scope records inner .select) .select (ts ++ .symbol .question :: (us ++ .symbol .colon :: vs))
      (do
        require (← o).ty .bool "select condition"
        let yes ← o'
        let no ← o''
        require no.ty yes.ty "select branches"
        return .of yes.ty) := by
  intro rest hrest
  simp only [List.append_assoc, List.cons_append]
  have hcondition (us : List Token) : or scope records inner (ts ++ .symbol .question :: us) =
      finish o (.symbol .question :: us) := h _ (stops_symbol (by decide) us)
  have hyes (vs : List Token) : or scope records inner (us ++ .symbol .colon :: vs) =
      finish o' (.symbol .colon :: vs) := h' _ (stops_symbol (by decide) vs)
  have hno : or scope records inner (vs ++ rest) = finish o'' rest := h'' rest (hrest.mono (by decide))
  rw [grammar, select, bind_of_finish (hcondition _), finish_bind]
  refine bind_congr fun condition => ?_
  rw [bind_of_ok (eat_same _ _), if_pos rfl, bind_of_finish (monadLift_finish _), finish_bind]
  refine bind_congr fun _ => ?_
  rw [bind_of_finish (hyes _), finish_bind]
  refine bind_congr fun yes => ?_
  rw [bind_of_ok (expect_same _ _), bind_of_finish hno, finish_bind]
  refine bind_congr fun no => ?_
  rw [bind_of_finish (monadLift_finish _), finish_bind]
  rfl

end

/-! ## Derivations -/

/-- No expression begins with a symbol that closes a list. -/
theorem noneBegins_of_derives {items : List (List Token × Outcome)} {close : Symbol}
    (hclose : levelRank .select < beginRank (.symbol close))
    (hitems : ∀ item ∈ items, Derives scope records .select item.1 item.2) : NoneBegins close items :=
  fun item hitem _ => (hitems item hitem).head_ne hclose

/-- The reader of a level comes to the outcome that its tokens derive: production by production, where parts of the
same nesting are read with the same fuel, and nested parts with one step less. -/
theorem reads_of_derives {level : Level} (h : Derives scope records level ts o) (fuel : Nat)
    (hfuel : ts.length ≤ fuel) : Reads scope records (readers scope records fuel) level ts o := by
  induction h generalizing fuel with
  | lift htighter hd ih =>
    exact lift_read htighter (ih fuel hfuel).complete fun rest symbol h =>
      Nat.le_of_not_lt fun hlt => hd.head_ne hlt h
  | int | float | string => exact .of_complete rfl fun rest _ => rfl
  | bool hname => exact .of_complete rfl (bool_read hname)
  | group _ ih =>
    simp only [List.length_cons, List.length_append] at hfuel
    exact .of_complete rfl (group_read (reads_nested ih (by omega)))
  | list hd ih =>
    simp only [List.length_cons, List.length_append] at hfuel
    exact .of_complete rfl (listLiteral_read (parts_read ih (by omega)) (noneBegins_of_derives (by decide) hd))
  | record hd ih =>
    simp only [List.length_cons, List.length_append] at hfuel
    exact .of_complete rfl (record_read (parts_read ih (by omega)) (noneBegins_of_derives (by decide) hd))
  | name label hname hlookup hfunction => exact .of_complete rfl (name_read label hname hlookup hfunction)
  | call label hname hlookup hfunction hd ih =>
    simp only [List.length_cons, List.length_append] at hfuel
    exact .of_complete rfl (call_read label hname hlookup hfunction (parts_read ih (by omega))
      (noneBegins_of_derives (by decide) hd))
  | element _ _ ih ih' =>
    simp only [List.length_cons, List.length_append] at hfuel
    exact .of_complete rfl (element_read (ih fuel (by omega)).complete (reads_nested ih' (by omega)))
  | slice _ hty _ _ _ ih ih₁ ih₂ ih₃ =>
    simp only [braced, List.length_cons, List.length_append] at hfuel
    exact .of_complete rfl (slice_read (ih fuel (by omega)).complete (reads_nested ih₁ (by omega))
      (reads_nested ih₂ (by omega)) (reads_nested ih₃ (by omega)) hty)
  | window _ hty _ _ _ _ _ _ ih ih₁ ih₂ ih₃ ih₁' ih₂' ih₃' =>
    simp only [braced, List.length_cons, List.length_append] at hfuel
    exact .of_complete rfl (window_read (ih fuel (by omega)).complete (reads_nested ih₁ (by omega))
      (reads_nested ih₂ (by omega)) (reads_nested ih₃ (by omega)) (reads_nested ih₁' (by omega))
      (reads_nested ih₂' (by omega)) (reads_nested ih₃' (by omega)) hty)
  | left hleft htighter hsymbol _ _ ih ih' =>
    simp only [List.length_cons, List.length_append] at hfuel
    exact leftGroup_read hleft htighter hsymbol (ih fuel (by omega)) (ih' fuel (by omega)).complete
  | query _ ih =>
    simp only [List.length_append] at hfuel
    exact .of_complete rfl (query_read (ih fuel (by omega)).complete)
  | right hright htighter _ _ ih ih' =>
    simp only [List.length_cons, List.length_append] at hfuel
    exact .of_complete (leftGroup?_of_rightGroup? hright)
      (rightGroup_read hright htighter (ih fuel (by omega)).complete (reads_nested ih' (by omega)))
  | negate _ ih =>
    simp only [List.length_cons] at hfuel
    exact .of_complete rfl (negate_read (reads_nested ih (by omega)))
  | compare hsymbol _ _ ih ih' =>
    simp only [List.length_cons, List.length_append] at hfuel
    exact .of_complete rfl
      (compare_read hsymbol (ih fuel (by omega)).complete (ih' fuel (by omega)).complete)
  | not _ ih =>
    simp only [List.length_cons] at hfuel
    exact .of_complete rfl (not_read (ih fuel (by omega)).complete)
  | select _ _ _ ih ih' ih'' =>
    simp only [List.length_cons, List.length_append] at hfuel
    exact .of_complete rfl (select_read (ih fuel (by omega)).complete (ih' fuel (by omega)).complete
      (ih'' fuel (by omega)).complete)

theorem typeOf_of_derives (h : Derives scope records .select ts o) : typeOf scope records ts = finish o [] := by
  have hread := (reads_of_derives h ts.length (Nat.le_refl _)).complete [] (.nil _)
  rwa [List.append_nil] at hread

/-- Checking a text comes to what its tokens derive. -/
theorem check_of_derives {text : String} (htokens : tokens text = .ok ts)
    (h : Derives scope records .select ts o) : check scope records text = (do return (← o).ty) := by
  rw [check, htokens, ok_bind, typeOf_of_derives h, finish, bind_assoc]
  rfl

end TensorFuzz.Check
