import TensorFuzz.Word
import TensorFuzz.Rounding
import TensorFuzz.Text.Digits
import TensorFuzz.Text.Printable

/-!
# JSON

Readers for the JSON values that a manifest is made of. A reader takes a value off the front of a text,
and stops at the first failure in the order of the text. Values that nobody asked for are skipped, with
their form checked but not their content. Strings are written in quotes: the quote, the backslash and the
control characters are escaped, and all other characters stand for themselves.
-/

namespace TensorFuzz.Json

inductive Failure
  | cutOff
  | malformed
  | unfit
  deriving DecidableEq, Repr

abbrev Reader := StateT (List Char) (Except Failure)

/-- A space, line feed, tab or carriage return. -/
def isBlank (c : Char) : Bool := c == ' ' || c == '\n' || c == '\t' || c == '\r'

def peek : Reader (Option Char) := do
  modify (·.dropWhile isBlank)
  return (← get).head?

def skip : Reader Unit := modify (·.drop 1)

def demand : Reader Char := do
  match ← peek with
  | some c => return c
  | none => throw .cutOff

def word : List Char → Reader Unit
  | [] => return ()
  | letter :: letters => do
    match ← get with
    | [] => throw .cutOff
    | c :: rest =>
      if c = letter then
        set rest
        word letters
      else throw .malformed

/-! ## Strings -/

def shortEscape? : Char → Option Char
  | '"' => some '"'
  | '\\' => some '\\'
  | '/' => some '/'
  | 'b' => some '\x08'
  | 'f' => some '\x0c'
  | 'n' => some '\n'
  | 'r' => some '\r'
  | 't' => some '\t'
  | _ => none

/-- Four hexadecimal digits. A text of less than four bytes is cut off. -/
def fourDigits : Reader Nat := do
  let text ← get
  let digits := text.take 4
  if digits.length = 4 ∧ digits.all Text.isHexDigit then
    set (text.drop 4)
    return Text.digitsValue 16 digits
  else if (String.ofList text).utf8ByteSize < 4 then throw .cutOff
  else throw .malformed

/-- The second half of a surrogate pair whose first half is `high`. -/
def surrogatePair (high : Nat) : Reader Char := do
  word ['\\', 'u']
  let low ← fourDigits
  if 0xdc00 ≤ low ∧ low ≤ 0xdfff then
    return Char.ofNat ((high - 0xd800) * 0x400 + (low - 0xdc00) + 0x10000)
  else throw .malformed

def escaped : Reader Char := do
  match ← get with
  | [] => throw .cutOff
  | 'u' :: rest =>
    set rest
    let code ← fourDigits
    if 0xdc00 ≤ code ∧ code ≤ 0xdfff then throw .malformed
    else if 0xd800 ≤ code ∧ code ≤ 0xdbff then surrogatePair code
    else return Char.ofNat code
  | c :: rest =>
    match shortEscape? c with
    | some d => set rest; return d
    | none => throw .malformed

/-- The rest of a string of less than `fuel` characters, after the characters in `done`, newest
first. -/
def stringTail : Nat → List Char → Reader String
  | 0, _ => throw .cutOff
  | fuel + 1, done => do
    match ← get with
    | [] => throw .cutOff
    | '"' :: rest =>
      set rest
      return String.ofList done.reverse
    | '\\' :: rest =>
      set rest
      stringTail fuel ((← escaped) :: done)
    | c :: rest =>
      if c.toNat < 0x20 then throw .malformed
      set rest
      stringTail fuel (c :: done)

/-- A string, from its opening quote on. -/
def quoted : Reader String := do
  skip
  stringTail ((← get).length + 1) []

/-! ## Numbers -/

inductive Number
  | natural (n : Nat)
  | other
  deriving DecidableEq, Repr

/-- At least one digit. -/
def someDigits : Reader (List Char) := do
  match ← get with
  | [] => throw .cutOff
  | c :: rest =>
    if c.isDigit then
      set (rest.dropWhile (·.isDigit))
      return c :: rest.takeWhile (·.isDigit)
    else throw .malformed

/-- The digits of an integer, which begins with a zero only if it is zero. -/
def integerDigits : Reader (List Char) := do
  let digits ← someDigits
  match digits with
  | '0' :: _ :: _ => throw .malformed
  | _ => return digits

def fractionDigits : Reader (Option (List Char)) := do
  match ← get with
  | '.' :: rest =>
    set rest
    return some (← someDigits)
  | _ => return none

def exponent : Reader (Option Int) := do
  match ← get with
  | c :: rest =>
    if c = 'e' ∨ c = 'E' then
      let isNegative := rest.head? = some '-'
      set (if isNegative ∨ rest.head? = some '+' then rest.drop 1 else rest)
      let size : Int := Text.digitsValue 10 (← someDigits)
      return some (if isNegative then -size else size)
    else return none
  | [] => return none

/-- A decimal number `digits * 10 ^ scale` under construction, and whether digits of it are already
dropped. -/
structure Decimal where
  digits : Nat
  scale : Int
  isFull : Bool

/-- One more digit before the point. Once the digits no longer fit a 64-bit word, they only count. -/
def Decimal.pushWhole (n : Decimal) (digit : Char) : Decimal :=
  let digits := n.digits * 10 + (digit.toNat - '0'.toNat)
  if n.isFull ∨ limit64 ≤ digits then { n with scale := n.scale + 1, isFull := true }
  else { n with digits }

/-- One more digit after the point. Once the digits no longer fit a 64-bit word, they are dropped. -/
def Decimal.pushPlace (n : Decimal) (digit : Char) : Decimal :=
  let digits := n.digits * 10 + (digit.toNat - '0'.toNat)
  if n.isFull ∨ limit64 ≤ digits then { n with isFull := true }
  else { n with digits, scale := n.scale - 1 }

/-- The number is too large for a double: it is the product of its digits and a power of ten, each kept
to 53 significant binary digits, and no larger power than `10 ^ 308` is used. -/
def Decimal.isTooLarge (n : Decimal) : Bool :=
  if n.digits = 0 ∨ n.scale < 0 then false
  else if 308 < n.scale then true
  else
    let product := Rounding.toPrecision n.digits * Rounding.toPrecision (Nat.pow 10 n.scale.toNat)
    1 <<< 1024 ≤ Rounding.toPrecision product

/-- A number, from its sign or its first digit on. -/
def number : Reader Number := do
  let isNegative := (← get).head? = some '-'
  if isNegative then skip
  let whole ← integerDigits
  let fraction ← fractionDigits
  let exponent ← exponent
  let n := whole.foldl Decimal.pushWhole ⟨0, 0, false⟩
  if fraction.isNone ∧ exponent.isNone ∧ !n.isFull then
    return if isNegative then .other else .natural n.digits
  let n := (fraction.getD []).foldl Decimal.pushPlace { n with isFull := false }
  let n := { n with scale := n.scale + exponent.getD 0 }
  if n.isTooLarge then throw .malformed
  return .other

/-! ## Values of another type -/

/-- Fails at a value that is not of the type asked for. A list or an object fails at its first
character, any other value after it is read. -/
def unfit {α : Type} : Reader α := do
  match ← demand with
  | 'n' => skip; word ['u', 'l', 'l']
  | 't' => skip; word ['r', 'u', 'e']
  | 'f' => skip; word ['a', 'l', 's', 'e']
  | '"' => let _ ← quoted
  | '[' | '\x7b' => pure ()
  | c =>
    if c = '-' ∨ c.isDigit then
      let _ ← number
    else throw .malformed
  throw .unfit

def natural : Reader Nat := do
  let c ← demand
  if c = '-' ∨ c.isDigit then
    match ← number with
    | .natural n => return n
    | .other => throw .unfit
  else unfit

def string : Reader String := do
  if (← demand) = '"' then quoted else unfit

/-! ## Lists -/

def hasItem (isFirst : Bool) : Reader Bool := do
  let c ← demand
  if c = ']' then return false
  if isFirst then return true
  if c = ',' then
    skip
    if (← demand) = ']' then throw .malformed
    return true
  throw .malformed

def item? {α : Type} (isFirst : Bool) (read : Reader α) : Reader (Option α) := do
  if ← hasItem isFirst then return some (← read) else return none

def endList : Reader Unit := do
  if (← demand) = ']' then skip else throw .malformed

def pair {α : Type} (read : Reader α) : Reader (α × α) := do
  if (← demand) = '[' then
    skip
    match ← item? true read with
    | none => throw .unfit
    | some a =>
      match ← item? false read with
      | none => throw .unfit
      | some b =>
        endList
        return (a, b)
  else unfit

/-! ## Skipped values -/

/-- The rest of a string of less than `fuel` characters, which is skipped. -/
def skipStringTail : Nat → Reader Unit
  | 0 => throw .cutOff
  | fuel + 1 => do
    match ← get with
    | [] => throw .cutOff
    | '"' :: rest => set rest
    | ['\\'] => throw .cutOff
    | '\\' :: 'u' :: rest =>
      set rest
      let _ ← fourDigits
      skipStringTail fuel
    | '\\' :: c :: rest =>
      if (shortEscape? c).isNone then throw .malformed
      set rest
      skipStringTail fuel
    | c :: rest =>
      if c.toNat < 0x20 then throw .malformed
      set rest
      skipStringTail fuel

/-- A string, from its opening quote on, which is skipped. -/
def skipQuoted : Reader Unit := do
  skip
  skipStringTail ((← get).length + 1)

/-- At least one digit, which are skipped. Here a missing digit is malformed also at the end. -/
def skipDigits : Reader (List Char) := do
  match ← get with
  | c :: rest =>
    if c.isDigit then
      set (rest.dropWhile (·.isDigit))
      return c :: rest.takeWhile (·.isDigit)
    else throw .malformed
  | [] => throw .malformed

/-- A number, from its sign or its first digit on, which is skipped. -/
def skipNumber : Reader Unit := do
  if (← get).head? = some '-' then skip
  match ← skipDigits with
  | '0' :: _ :: _ => throw .malformed
  | _ => pure ()
  if (← get).head? = some '.' then
    skip
    let _ ← skipDigits
  let next := (← get).head?
  if next = some 'e' ∨ next = some 'E' then
    skip
    let sign := (← get).head?
    if sign = some '+' ∨ sign = some '-' then skip
    let _ ← skipDigits

/-- The items of a skipped list from one on, at most `fuel` of them. -/
def skipItems (value : Reader Unit) : Nat → Reader Unit
  | 0 => throw .cutOff
  | fuel + 1 => do
    value
    match ← demand with
    | ',' => skip; skipItems value fuel
    | ']' => skip
    | _ => throw .malformed

/-- The members of a skipped object from one on, at most `fuel` of them. -/
def skipMembers (value : Reader Unit) : Nat → Reader Unit
  | 0 => throw .cutOff
  | fuel + 1 => do
    if (← demand) = '"' then skipQuoted else throw .malformed
    if (← demand) = ':' then skip else throw .malformed
    value
    match ← demand with
    | ',' => skip; skipMembers value fuel
    | '\x7d' => skip
    | _ => throw .malformed

/-- A value nested less than `fuel` deep, which is skipped. -/
def skipValue : Nat → Reader Unit
  | 0 => throw .cutOff
  | fuel + 1 => do
    match ← demand with
    | 'n' => skip; word ['u', 'l', 'l']
    | 't' => skip; word ['r', 'u', 'e']
    | 'f' => skip; word ['a', 'l', 's', 'e']
    | '"' => skipQuoted
    | '[' =>
      skip
      if (← demand) = ']' then skip
      else skipItems (skipValue fuel) ((← get).length + 1)
    | '\x7b' =>
      skip
      if (← demand) = '\x7d' then skip
      else skipMembers (skipValue fuel) ((← get).length + 1)
    | c => if c = '-' ∨ c.isDigit then skipNumber else throw .malformed

/-! ## Objects with known members -/

/-- A named member, and how reading it changes what has been read so far. -/
structure Member (α : Type) where
  name : String
  read : α → Reader α

def key? (isFirst : Bool) : Reader (Option String) := do
  let c ← demand
  if c = '\x7d' then return none
  if isFirst then
    if c = '"' then return some (← quoted) else throw .malformed
  if c = ',' then
    skip
    if (← demand) = '"' then return some (← quoted) else throw .malformed
  throw .malformed

def colon : Reader Unit := do
  if (← demand) = ':' then skip else throw .malformed

/-- The members of an object up to its end, at most `fuel` of them. A member that was seen before is
refused at its key; an unknown one is skipped. -/
def members {α : Type} (known : List (Member α)) : Nat → Bool → List String → α → Reader α
  | 0, _, _, _ => throw .cutOff
  | fuel + 1, isFirst, seen, a => do
    match ← key? isFirst with
    | none => return a
    | some name =>
      match known.find? (·.name == name) with
      | none =>
        colon
        skipValue ((← get).length + 1)
        members known fuel false seen a
      | some member =>
        if name ∈ seen then throw .unfit
        colon
        members known fuel false (name :: seen) (← member.read a)

/-- The items of a list as the members of an object, in order; the list may end early. -/
def memberItems {α : Type} : List (Member α) → Bool → α → Reader α
  | [], _, a => return a
  | member :: others, isFirst, a => do
    match ← item? isFirst (member.read a) with
    | none => return a
    | some a => memberItems others false a

/-- An object with the known members, or a list of their values; `finish` checks what was read before
the end is looked at. -/
def structured {α β : Type} (known : List (Member α)) (start : α) (finish : α → Except Failure β) :
    Reader β := do
  match ← demand with
  | '[' =>
    skip
    let b ← finish (← memberItems known true start)
    endList
    return b
  | '\x7b' =>
    skip
    let b ← finish (← members known ((← get).length + 1) true [] start)
    skip
    return b
  | _ => unfit

def document {α : Type} (read : Reader α) (text : String) : Except Failure α := do
  let (a, rest) ← read.run text.toList
  if (rest.dropWhile isBlank).isEmpty then return a
  throw .malformed

/-! ## Writing -/

def escape : Char → String
  | '"' => "\\\""
  | '\\' => "\\\\"
  | '\x08' => "\\b"
  | '\x0c' => "\\f"
  | '\n' => "\\n"
  | '\r' => "\\r"
  | '\t' => "\\t"
  | c =>
    if c.toNat < 0x10 then "\\u000" ++ Text.hexadecimal c.toNat
    else if c.toNat < 0x20 then "\\u00" ++ Text.hexadecimal c.toNat
    else c.toString

def quote (text : String) : String := "\"" ++ String.join (text.toList.map escape) ++ "\""

end TensorFuzz.Json
