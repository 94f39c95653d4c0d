import TensorFuzz.Fault
import TensorFuzz.Word
import TensorFuzz.Text.Blank
import TensorFuzz.Text.Printable

/-!
# Evaluation of constant texts

A constant text is cut into numbers and symbols and then evaluated by precedence: sums and differences,
products and exact quotients, signs, and powers, which group to the right and bind tighter than a sign.
Values are signed 128-bit words; what none of them holds is a fault, or an error for a power.
-/

namespace TensorFuzz.Constant

/-! ## Tokens -/

inductive Token
  | number (value : Int)
  | symbol (mark : Char)
  deriving DecidableEq, Repr

def Token.text : Token → String
  | number value => "Num(" ++ toString value ++ ")"
  | symbol mark => "Op(" ++ Text.quotedChar mark ++ ")"

def marks : List Char := ['+', '-', '*', '/', '^', '(', ')']

inductive EvalError
  | unexpectedChar (c : Char)
  | unexpectedToken (found : Option Token)
  | unclosed
  | trailing (text : String)
  | inexact (dividend divisor : Int)
  | exponentTooLarge
  | exponentNegative
  | powerTooLarge
  | fault (cause : Fault)
  | tooDeep
  deriving DecidableEq, Repr

def EvalError.message : EvalError → String
  | unexpectedChar c => "unexpected character " ++ Text.quotedChar c
  | unexpectedToken none => "unexpected token None"
  | unexpectedToken (some token) => "unexpected token Some(" ++ token.text ++ ")"
  | unclosed => "missing ')'"
  | trailing text => "trailing tokens in " ++ Text.quoted text
  | inexact dividend divisor =>
    "inexact division " ++ toString dividend ++ " / " ++ toString divisor
  | exponentTooLarge => "number too large to fit in target type"
  | exponentNegative => "number too small to fit in target type"
  | powerTooLarge => "power overflow"
  | fault cause => cause.message
  | tooDeep => "expression nested too deeply"

/-- The result of an operation, where a signed 128-bit word holds it. -/
def held (overflow : Fault) (value : Int) : Except EvalError Int :=
  if Fits128 value then .ok value else .error (.fault overflow)

/-- The number with one more digit. -/
def appendDigit (n digit : Nat) : Except EvalError Nat := do
  let tens ← held .multiplyOverflow (n * 10)
  return (← held .addOverflow (tens + digit)).toNat

/-- The token of the digits read so far, if there are any. -/
def pendingNumber : Option Nat → List Token
  | none => []
  | some n => [.number n]

/-- The tokens of a text, after the digits of a number whose value so far is `pending`. -/
def scan (pending : Option Nat) : List Char → Except EvalError (List Token)
  | [] => .ok (pendingNumber pending)
  | c :: rest => do
    if c.isDigit then scan (some (← appendDigit (pending.getD 0) (c.toNat - '0'.toNat))) rest
    else if Text.isAsciiBlank c then return pendingNumber pending ++ (← scan none rest)
    else if c ∈ marks then return pendingNumber pending ++ .symbol c :: (← scan none rest)
    else .error (.unexpectedChar c)

def tokens (text : List Char) : Except EvalError (List Token) := scan none text

/-! ## Values -/

/-- A reader of tokens: what it reads off the front of a list, and what it leaves. -/
abbrev Reader := StateT (List Token) (Except EvalError)

/-- The levels of precedence, loosest first. -/
inductive Precedence
  | sum
  | product
  | sign
  | power
  | primary
  deriving DecidableEq, Repr

def eat (mark : Char) : Reader Bool := do
  match ← get with
  | .symbol c :: rest => if c = mark then set rest; return true else return false
  | _ => return false

/-- The quotient of an exact division. -/
def exactQuotient (dividend divisor : Int) : Except EvalError Int :=
  if divisor = 0 then .error (.inexact dividend divisor)
  else if dividend = least128 ∧ divisor = -1 then .error (.fault .remainderOverflow)
  else if dividend.tmod divisor ≠ 0 then .error (.inexact dividend divisor)
  else .ok (dividend.tdiv divisor)

/-- The power with an exponent that an unsigned 32-bit word holds. -/
def powerOf (base exponent : Int) : Except EvalError Int :=
  if exponent < 0 then .error .exponentNegative
  else if limit32 ≤ exponent then .error .exponentTooLarge
  else match checkedPow128 base exponent.toNat with
    | some value => .ok value
    | none => .error .powerTooLarge

section
variable (below : Precedence → Reader Int)

def primary : Reader Int := do
  match ← get with
  | .number value :: rest => set rest; return value
  | .symbol '(' :: rest =>
    set rest
    let value ← below .sum
    if ← eat ')' then return value
    throw .unclosed
  | found => throw (.unexpectedToken found.head?)

/-- A primary, or a power whose exponent is again a power. -/
def power : Reader Int := do
  let base ← primary below
  if ← eat '^' then powerOf base (← below .power) else return base

def signed : Reader Int := do
  if ← eat '-' then held .negateOverflow (-(← below .sign)) else power below

/-- Further factors and divisors of a product, at most `fuel` of them. -/
def factors : Nat → Int → Reader Int
  | 0, value => return value
  | fuel + 1, value => do
    if ← eat '*' then factors fuel (← held .multiplyOverflow (value * (← signed below)))
    else if ← eat '/' then factors fuel (← exactQuotient value (← signed below))
    else return value

def product : Reader Int := do
  let first ← signed below
  factors below (← get).length first

/-- Further summands of a sum, at most `fuel` of them. -/
def summands : Nat → Int → Reader Int
  | 0, value => return value
  | fuel + 1, value => do
    if ← eat '+' then summands fuel (← held .addOverflow (value + (← product below)))
    else if ← eat '-' then summands fuel (← held .subtractOverflow (value - (← product below)))
    else return value

def sum : Reader Int := do
  let first ← product below
  summands below (← get).length first

end

/-- The reader of each precedence, for texts nested less than `fuel` deep. -/
def reader : Nat → Precedence → Reader Int
  | 0, _ => throw .tooDeep
  | fuel + 1, .sum => sum (reader fuel)
  | fuel + 1, .product => product (reader fuel)
  | fuel + 1, .sign => signed (reader fuel)
  | fuel + 1, .power => power (reader fuel)
  | fuel + 1, .primary => primary (reader fuel)

/-- The value of a constant text. -/
def evaluate (text : String) : Except EvalError Int := do
  let all ← tokens text.toList
  let (value, rest) ← (reader (all.length + 1) .sum).run all
  if rest.isEmpty then return value
  throw (.trailing text)

end TensorFuzz.Constant
