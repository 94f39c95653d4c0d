import TensorFuzz.Proofs.Check.Grammar

/-!
# The typed grammar

`Derivation` says which lists of tokens are an expression of a level, of which type and with which constant value:
one rule for each production, with what the production asks of the types of its parts. The rules do not mention how
tokens are read. They are relations on types and exact arithmetic on integers, a value being kept where a signed
128-bit word holds it.
-/

namespace TensorFuzz.Check

/-! ## Types and values -/

/-- The operands of `+ - * / ^` have one type, and only numbers are divided; or one is a vector or matrix and the
other a number of the same kind, on either side of a sum or product and on the right of a power. -/
inductive OperationTy : Symbol → Ty → Ty → Ty → Prop
  | same {op : Symbol} {ty : Ty} : ty.isArithmetic = true → (op = .slash → ty.isNumber = true) →
      OperationTy op ty ty ty
  | elementRight {op : Symbol} {ty : Ty} : op = .plus ∨ op = .star ∨ op = .caret → ty.isTensor = true →
      OperationTy op ty ty.elementTy ty
  | elementLeft {op : Symbol} {ty : Ty} : op = .plus ∨ op = .star → ty.isTensor = true →
      OperationTy op ty.elementTy ty ty

/-- The constant that an operation on constants comes to: a sum, difference, product or power where a signed 128-bit
word holds it, a power only for the exponents of an unsigned 32-bit word, and a quotient where it is an integer. -/
def constantValue (op : Symbol) (left right : Option Int) : Option Int := do
  let a ← left
  let b ← right
  match op with
  | .plus => checked128 (a + b)
  | .minus => checked128 (a - b)
  | .star => checked128 (a * b)
  | .slash => if b ≠ 0 ∧ b ∣ a then some (a / b) else none
  | .caret => if 0 ≤ b ∧ b < limit32 then checked128 (a.pow b.toNat) else none
  | _ => none

/-- The factors of a matrix product share a dimension, which the product does not have. -/
inductive ProductTy : Ty → Ty → Ty → Prop
  | vectors {kind : Kind} {n : Nat} : ProductTy (.vector kind n) (.vector kind n) (.ofKind kind)
  | vectorMatrix {kind : Kind} {rows cols : Nat} :
      ProductTy (.vector kind rows) (.matrix kind rows cols) (.vector kind cols)
  | matrixVector {kind : Kind} {rows cols : Nat} :
      ProductTy (.matrix kind rows cols) (.vector kind cols) (.vector kind rows)
  | matrices {kind : Kind} {rows shared cols : Nat} :
      ProductTy (.matrix kind rows shared) (.matrix kind shared cols) (.matrix kind rows cols)

/-- The sizes that can be asked for by name. -/
inductive HasSize : String → Ty → Prop
  | dimension {kind : Kind} {n : Nat} : HasSize "dimension" (.vector kind n)
  | rows {kind : Kind} {rows cols : Nat} : HasSize "rows" (.matrix kind rows cols)
  | cols {kind : Kind} {rows cols : Nat} : HasSize "cols" (.matrix kind rows cols)

/-- The number of indices from one bound to the other: at least one, and no more than a word holds. -/
def Counts (lo hi : Int) (n : Nat) : Prop := (n : Int) = hi - lo + 1 ∧ 1 ≤ n ∧ n < limit64

/-- The type of a value, or of its field with the label. -/
inductive LabelledTy (records : Registry) : Ty → Option String → Ty → Prop
  | value (ty : Ty) : LabelledTy records ty none ty
  | field {id label : String} {field : Field} : records.fieldNamed? id label = some field →
      LabelledTy records (.record id) (some label) field.ty

/-! ## Derivations -/

/-- The types of the parts of a list. -/
def partTys (items : List (List Token × Typed)) : List Ty := items.map (·.2.ty)

/-- The tokens of the parts of a list, with a comma between any two. -/
def partTokens (items : List (List Token × Typed)) : List Token := separated (items.map (·.1))

/-- The tokens are an expression of the level, with the type and the constant value. -/
inductive Derivation (scope : Scope) (records : Registry) : Level → List Token → Typed → Prop
  | lift {level tighter : Level} {ts : List Token} {t : Typed} : level.tighter? = some tighter →
      Derivation scope records tighter ts t → Derivation scope records level ts t
  | int (n : Nat) : Derivation scope records .atom [.int n] ⟨.int, some n⟩
  | float : Derivation scope records .atom [.float] (.of .float)
  | string : Derivation scope records .atom [.string] (.of .string)
  | bool {name : String} : name = "true" ∨ name = "false" →
      Derivation scope records .atom [.ident name] (.of .bool)
  | group {ts : List Token} {t : Typed} : Derivation scope records .select ts t →
      Derivation scope records .atom (.symbol .openParen :: (ts ++ [.symbol .closeParen])) t
  | vector {items : List (List Token × Typed)} {kind : Kind} : items ≠ [] →
      (∀ item ∈ items, Derivation scope records .select item.1 item.2) → (∀ ty ∈ partTys items, ty = .ofKind kind) →
      Derivation scope records .atom (.symbol .openBracket :: (partTokens items ++ [.symbol .closeBracket]))
        (.of (.vector kind items.length))
  | matrix {items : List (List Token × Typed)} {kind : Kind} {cols : Nat} : items ≠ [] →
      (∀ item ∈ items, Derivation scope records .select item.1 item.2) →
      (∀ ty ∈ partTys items, ty = .vector kind cols) →
      Derivation scope records .atom (.symbol .openBracket :: (partTokens items ++ [.symbol .closeBracket]))
        (.of (.matrix kind items.length cols))
  | record {id : String} {fields : List Field} {items : List (List Token × Typed)} :
      (∀ item ∈ items, Derivation scope records .select item.1 item.2) → records.fields? id = some fields →
      partTys items = fields.map (·.ty) →
      Derivation scope records .atom
        (.symbol .at :: .ident id :: .symbol .openBracket :: (partTokens items ++ [.symbol .closeBracket]))
        (.of (.record id))
  | name {name : String} {b : Binding} {label : Option String} {ty : Ty} : name ≠ "true" ∧ name ≠ "false" →
      scope.lookup? name = some b → b.isFunction = false → LabelledTy records b.ty label ty →
      Derivation scope records .atom (.ident name :: labelTokens label) (.of ty)
  | call {name : String} {b : Binding} {items : List (List Token × Typed)} {label : Option String} {ty : Ty} :
      name ≠ "true" ∧ name ≠ "false" → scope.lookup? name = some b → b.isFunction = true →
      (∀ item ∈ items, Derivation scope records .select item.1 item.2) → partTys items = b.params →
      LabelledTy records b.ty label ty →
      Derivation scope records .atom
        (.ident name :: .symbol .openParen :: (partTokens items ++ .symbol .closeParen :: labelTokens label)) (.of ty)
  | entry {ts us : List Token} {v w : Option Int} {kind : Kind} {n : Nat} :
      Derivation scope records .atom ts ⟨.vector kind n, v⟩ → Derivation scope records .select us ⟨.int, w⟩ →
      Derivation scope records .element (ts ++ .symbol .openBracket :: (us ++ [.symbol .closeBracket]))
        (.of (.ofKind kind))
  | row {ts us : List Token} {v w : Option Int} {kind : Kind} {rows cols : Nat} :
      Derivation scope records .atom ts ⟨.matrix kind rows cols, v⟩ → Derivation scope records .select us ⟨.int, w⟩ →
      Derivation scope records .element (ts ++ .symbol .openBracket :: (us ++ [.symbol .closeBracket]))
        (.of (.vector kind cols))
  | slice {ts lo step hi : List Token} {v w : Option Int} {a b : Int} {kind : Kind} {length n : Nat} :
      Derivation scope records .element ts ⟨.vector kind length, v⟩ →
      Derivation scope records .select lo ⟨.int, some a⟩ → Derivation scope records .select step ⟨.int, w⟩ →
      Derivation scope records .select hi ⟨.int, some b⟩ → Counts a b n →
      Derivation scope records .slice (ts ++ braced lo step hi) (.of (sliceTy kind n))
  | window {ts lo step hi lo' step' hi' : List Token} {v w w' : Option Int} {a b a' b' : Int} {kind : Kind}
      {rows cols m n : Nat} : Derivation scope records .element ts ⟨.matrix kind rows cols, v⟩ →
      Derivation scope records .select lo ⟨.int, some a⟩ → Derivation scope records .select step ⟨.int, w⟩ →
      Derivation scope records .select hi ⟨.int, some b⟩ → Counts a b m →
      Derivation scope records .select lo' ⟨.int, some a'⟩ → Derivation scope records .select step' ⟨.int, w'⟩ →
      Derivation scope records .select hi' ⟨.int, some b'⟩ → Counts a' b' n →
      Derivation scope records .slice (ts ++ (braced lo step hi ++ braced lo' step' hi')) (.of (windowTy kind m n))
  | matmul {ts us : List Token} {l r : Typed} {ty : Ty} : Derivation scope records .matmul ts l →
      Derivation scope records .slice us r → ProductTy l.ty r.ty ty →
      Derivation scope records .matmul (ts ++ .symbol .hash :: us) (.of ty)
  | dot {ts us : List Token} {v w : Option Int} {kind : Kind} {n : Nat} :
      Derivation scope records .dot ts ⟨.vector kind n, v⟩ → Derivation scope records .matmul us ⟨.vector kind n, w⟩ →
      Derivation scope records .dot (ts ++ .symbol .dot :: us) (.of (.ofKind kind))
  | query {name : String} {ts : List Token} {t : Typed} : Derivation scope records .dot ts t → HasSize name t.ty →
      Derivation scope records .query (ts ++ [.query name]) (.of .int)
  | power {ts us : List Token} {l r : Typed} {ty : Ty} : Derivation scope records .query ts l →
      Derivation scope records .power us r → OperationTy .caret l.ty r.ty ty →
      Derivation scope records .power (ts ++ .symbol .caret :: us) ⟨ty, constantValue .caret l.value r.value⟩
  | negate {ts : List Token} {t : Typed} : Derivation scope records .negate ts t → t.ty.isNumber = true →
      Derivation scope records .negate (.symbol .minus :: ts) ⟨t.ty, t.value.bind fun v => checked128 (-v)⟩
  | product {op : Symbol} {ts us : List Token} {l r : Typed} {ty : Ty} : op = .star ∨ op = .slash →
      Derivation scope records .product ts l → Derivation scope records .negate us r → OperationTy op l.ty r.ty ty →
      Derivation scope records .product (ts ++ .symbol op :: us) ⟨ty, constantValue op l.value r.value⟩
  | sum {op : Symbol} {ts us : List Token} {l r : Typed} {ty : Ty} : op = .plus ∨ op = .minus →
      Derivation scope records .sum ts l → Derivation scope records .product us r → OperationTy op l.ty r.ty ty →
      Derivation scope records .sum (ts ++ .symbol op :: us) ⟨ty, constantValue op l.value r.value⟩
  | compare {op : Symbol} {ts us : List Token} {l r : Typed} : op ∈ comparisons →
      Derivation scope records .sum ts l → Derivation scope records .sum us r → l.ty.isNumber = true →
      r.ty = l.ty → Derivation scope records .compare (ts ++ .symbol op :: us) (.of .bool)
  | not {ts : List Token} {t : Typed} : Derivation scope records .compare ts t → t.ty = .bool →
      Derivation scope records .not (.symbol .bang :: ts) (.of .bool)
  | and {ts us : List Token} {l r : Typed} : Derivation scope records .not ts l →
      Derivation scope records .and us r → l.ty = .bool → r.ty = .bool →
      Derivation scope records .and (ts ++ .symbol .ampersand :: us) (.of .bool)
  | or {ts us : List Token} {l r : Typed} : Derivation scope records .and ts l →
      Derivation scope records .or us r → l.ty = .bool → r.ty = .bool →
      Derivation scope records .or (ts ++ .symbol .bar :: us) (.of .bool)
  | select {ts us vs : List Token} {c y n : Typed} : Derivation scope records .or ts c →
      Derivation scope records .or us y → Derivation scope records .or vs n → c.ty = .bool → n.ty = y.ty →
      Derivation scope records .select (ts ++ .symbol .question :: (us ++ .symbol .colon :: vs)) (.of y.ty)

/-- The text is cut into tokens that are an expression of the type. -/
def Derivable (scope : Scope) (records : Registry) (text : String) (ty : Ty) : Prop :=
  ∃ ts value, tokens text = .ok ts ∧ Derivation scope records .select ts ⟨ty, value⟩

end TensorFuzz.Check
