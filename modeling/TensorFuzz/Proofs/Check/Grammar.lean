import TensorFuzz.Check.Typing
import TensorFuzz.Proofs.Random.Draws

/-!
# The grammar of expressions

`Derives` is the grammar that the readers follow: which lists of tokens are an expression of a level, and what
checking the expression comes to. An outcome is a type with the value of a constant, or the first error from
left to right. Four levels group to the left and three to the right; each of these families is one rule.
-/

namespace TensorFuzz

/-- The next tighter level, whose expressions are expressions of the level as well. -/
def Level.tighter? : Level → Option Level
  | whole => some select
  | select => some or
  | or => some and
  | and => some not
  | not => some compare
  | compare => some sum
  | sum => some product
  | product => some negate
  | negate => some power
  | power => some query
  | query => some dot
  | dot => some matmul
  | matmul => some slice
  | slice => some element
  | element => some atom
  | atom => none

namespace Check

/-- What checking comes to: a type with the value of a constant, or the first error. -/
abbrev Outcome := Except Error Typed

/-! ## Levels -/

/-- The levels in order, tightest first. -/
def levelRank : Level → Nat
  | .atom => 1
  | .element => 2
  | .slice => 3
  | .matmul => 4
  | .dot => 5
  | .query => 6
  | .power => 7
  | .negate => 8
  | .product => 9
  | .sum => 10
  | .compare => 11
  | .not => 12
  | .and => 13
  | .or => 14
  | .select => 15
  | .whole => 16

theorem rank_tighter {level tighter : Level} (h : level.tighter? = some tighter) :
    levelRank level = levelRank tighter + 1 := by
  cases level <;> cases h <;> rfl

/-- What goes from a level to the next looser one holds of all looser levels. -/
theorem loosen {P : Level → Prop} (hlift : ∀ level tighter, level.tighter? = some tighter → P tighter → P level)
    {level level' : Level} (hle : levelRank level ≤ levelRank level') (h : P level) : P level' := by
  obtain ⟨n, hn⟩ : ∃ n, levelRank level' = levelRank level + n := ⟨levelRank level' - levelRank level, by omega⟩
  induction n generalizing level' with
  | zero =>
    have heq : level' = level := by cases level' <;> cases level <;> simp [levelRank] at hn <;> rfl
    exact heq ▸ h
  | succ n ih =>
    cases htighter : level'.tighter? with
    | none =>
      have hpos : 1 ≤ levelRank level := by cases level <;> decide
      have hone : levelRank level' = 1 := by cases level' <;> cases htighter; rfl
      omega
    | some tighter =>
      have hrank := rank_tighter htighter
      exact hlift level' tighter htighter (ih (by omega) (by omega))

/-! ## What operators do -/

/-- A truth value of two truth values. -/
def connective (symbol : Symbol) (left right : Typed) : Outcome := do
  require left.ty .bool symbol.text
  require right.ty .bool symbol.text
  return .of .bool

/-- A comparison of two numbers of one type. -/
def comparison (symbol : Symbol) (left right : Typed) : Outcome := do
  if !left.ty.isNumber then throw (.comparison left.ty)
  require right.ty left.ty symbol.text
  return .of .bool

/-- A negated number. -/
def negation (operand : Typed) : Outcome := do
  if !operand.ty.isNumber then throw (.negation operand.ty)
  return ⟨operand.ty, operand.value.bind fun v => checked128 (-v)⟩

/-- An entry of a vector or a row of a matrix. -/
def selection (source index : Typed) : Outcome := do
  require index.ty .int "index"
  return .of (← entryTy source.ty)

/-- The number of indices between constant bounds. -/
def spanOf (lo step hi : Outcome) : Except Error Nat := do
  let lo ← lo
  let step ← step
  let hi ← hi
  require lo.ty .int "subrange bound"
  require step.ty .int "subrange bound"
  require hi.ty .int "subrange bound"
  match lo.value, hi.value with
  | some lo, some hi => indexCount lo hi
  | _, _ => throw .boundsNotConstant

/-- The levels that group to the left: their operators, and what these do. -/
def leftGroup? : Level → Option (List Symbol × (Symbol → Typed → Typed → Outcome))
  | .sum => some ([.plus, .minus], operate)
  | .product => some ([.star, .slash], operate)
  | .dot => some ([.dot], fun _ left right => Typed.of <$> dotProduct left.ty right.ty)
  | .matmul => some ([.hash], fun _ left right => Typed.of <$> matrixProduct left.ty right.ty)
  | _ => none

/-- The levels that group to the right: their operator, and what it does. -/
def rightGroup? : Level → Option (Symbol × (Typed → Typed → Outcome))
  | .or => some (.bar, connective .bar)
  | .and => some (.ampersand, connective .ampersand)
  | .power => some (.caret, operate .caret)
  | _ => none

/-! ## Derivations -/

/-- Lists of tokens with a comma between any two. -/
def separated : List (List Token) → List Token
  | [] => []
  | [ts] => ts
  | ts :: others => ts ++ .symbol .comma :: separated others

/-- The types of parts that are checked one after another. -/
def itemTys (outcomes : List Outcome) : Except Error (List Ty) := outcomes.mapM fun o => do return (← o).ty

/-- The tokens behind a name or a call: a label, if there is one. -/
def labelTokens : Option String → List Token
  | none => []
  | some label => [.symbol .at, .ident label]

/-- The type of a value, or of its field with the label. -/
def labelledTy (records : Registry) (ty : Ty) : Option String → Except Error Ty
  | none => .ok ty
  | some label => fieldTy records ty label

/-- The tokens of a slice: its bounds and step in braces. -/
def braced (lo step hi : List Token) : List Token :=
  .symbol .openBrace :: (lo ++ .symbol .colon :: (step ++ .symbol .colon :: (hi ++ [.symbol .closeBrace])))

/-- The tokens are an expression of the level, and checking it comes to the outcome. -/
inductive Derives (scope : Scope) (records : Registry) : Level → List Token → Outcome → Prop
  | lift {level tighter : Level} {ts : List Token} {o : Outcome} : level.tighter? = some tighter →
      Derives scope records tighter ts o → Derives scope records level ts o
  | int (n : Nat) : Derives scope records .atom [.int n] (.ok ⟨.int, some n⟩)
  | float : Derives scope records .atom [.float] (.ok (.of .float))
  | string : Derives scope records .atom [.string] (.ok (.of .string))
  | bool {name : String} : name = "true" ∨ name = "false" →
      Derives scope records .atom [.ident name] (.ok (.of .bool))
  | group {ts : List Token} {o : Outcome} : Derives scope records .select ts o →
      Derives scope records .atom (.symbol .openParen :: (ts ++ [.symbol .closeParen])) o
  | list {items : List (List Token × Outcome)} :
      (∀ item ∈ items, Derives scope records .select item.1 item.2) →
      Derives scope records .atom
        (.symbol .openBracket :: (separated (items.map (·.1)) ++ [.symbol .closeBracket]))
        (do return .of (← listTy (← itemTys (items.map (·.2)))))
  | record {id : String} {items : List (List Token × Outcome)} :
      (∀ item ∈ items, Derives scope records .select item.1 item.2) →
      Derives scope records .atom
        (.symbol .at :: .ident id :: .symbol .openBracket ::
          (separated (items.map (·.1)) ++ [.symbol .closeBracket]))
        (do return .of (← recordTy records id (← itemTys (items.map (·.2)))))
  | name {name : String} {b : Binding} (label : Option String) : name ≠ "true" ∧ name ≠ "false" →
      scope.lookup? name = some b → b.isFunction = false →
      Derives scope records .atom (.ident name :: labelTokens label)
        (do return .of (← labelledTy records b.ty label))
  | call {name : String} {b : Binding} {items : List (List Token × Outcome)} (label : Option String) :
      name ≠ "true" ∧ name ≠ "false" → scope.lookup? name = some b → b.isFunction = true →
      (∀ item ∈ items, Derives scope records .select item.1 item.2) →
      Derives scope records .atom
        (.ident name :: .symbol .openParen ::
          (separated (items.map (·.1)) ++ .symbol .closeParen :: labelTokens label))
        (do return .of (← labelledTy records (← callTy b (← itemTys (items.map (·.2)))) label))
  | element {ts us : List Token} {o o' : Outcome} : Derives scope records .atom ts o →
      Derives scope records .select us o' →
      Derives scope records .element (ts ++ .symbol .openBracket :: (us ++ [.symbol .closeBracket]))
        (do selection (← o) (← o'))
  | slice {ts lo step hi : List Token} {o o₁ o₂ o₃ : Outcome} {kind : Kind} : Derives scope records .element ts o →
      (∀ source, o = .ok source → ∃ length, source.ty = .vector kind length) →
      Derives scope records .select lo o₁ → Derives scope records .select step o₂ →
      Derives scope records .select hi o₃ →
      Derives scope records .slice (ts ++ braced lo step hi)
        (do
          let _ ← o
          return .of (sliceTy kind (← spanOf o₁ o₂ o₃)))
  | window {ts lo step hi lo' step' hi' : List Token} {o o₁ o₂ o₃ o₁' o₂' o₃' : Outcome} {kind : Kind} :
      Derives scope records .element ts o →
      (∀ source, o = .ok source → ∃ rows cols, source.ty = .matrix kind rows cols) →
      Derives scope records .select lo o₁ → Derives scope records .select step o₂ →
      Derives scope records .select hi o₃ → Derives scope records .select lo' o₁' →
      Derives scope records .select step' o₂' → Derives scope records .select hi' o₃' →
      Derives scope records .slice (ts ++ (braced lo step hi ++ braced lo' step' hi'))
        (do
          let _ ← o
          let rows ← spanOf o₁ o₂ o₃
          return .of (windowTy kind rows (← spanOf o₁' o₂' o₃')))
  | left {level operand : Level} {symbols : List Symbol} {combine : Symbol → Typed → Typed → Outcome}
      {symbol : Symbol} {ts us : List Token} {o o' : Outcome} : leftGroup? level = some (symbols, combine) →
      level.tighter? = some operand → symbol ∈ symbols → Derives scope records level ts o →
      Derives scope records operand us o' →
      Derives scope records level (ts ++ .symbol symbol :: us) (do combine symbol (← o) (← o'))
  | query {name : String} {ts : List Token} {o : Outcome} : Derives scope records .dot ts o →
      Derives scope records .query (ts ++ [.query name]) (do sizeQuery name (← o).ty)
  | right {level operand : Level} {symbol : Symbol} {combine : Typed → Typed → Outcome} {ts us : List Token}
      {o o' : Outcome} : rightGroup? level = some (symbol, combine) → level.tighter? = some operand →
      Derives scope records operand ts o → Derives scope records level us o' →
      Derives scope records level (ts ++ .symbol symbol :: us) (do combine (← o) (← o'))
  | negate {ts : List Token} {o : Outcome} : Derives scope records .negate ts o →
      Derives scope records .negate (.symbol .minus :: ts) (do negation (← o))
  | compare {symbol : Symbol} {ts us : List Token} {o o' : Outcome} : symbol ∈ comparisons →
      Derives scope records .sum ts o → Derives scope records .sum us o' →
      Derives scope records .compare (ts ++ .symbol symbol :: us) (do comparison symbol (← o) (← o'))
  | not {ts : List Token} {o : Outcome} : Derives scope records .compare ts o →
      Derives scope records .not (.symbol .bang :: ts)
        (do
          require (← o).ty .bool "!"
          return .of .bool)
  | select {ts us vs : List Token} {o o' o'' : Outcome} : Derives scope records .or ts o →
      Derives scope records .or us o' → Derives scope records .or vs o'' →
      Derives scope records .select (ts ++ .symbol .question :: (us ++ .symbol .colon :: vs))
        (do
          require (← o).ty .bool "select condition"
          let yes ← o'
          let no ← o''
          require no.ty yes.ty "select branches"
          return .of yes.ty)

theorem Derives.loosen {scope : Scope} {records : Registry} {level level' : Level} {ts : List Token} {o : Outcome}
    (h : Derives scope records level ts o) (hle : levelRank level ≤ levelRank level') :
    Derives scope records level' ts o :=
  Check.loosen (P := fun level => Derives scope records level ts o) (fun _ _ => .lift) hle h

end Check

end TensorFuzz
