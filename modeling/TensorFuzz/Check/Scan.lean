import TensorFuzz.Word
import TensorFuzz.Check.Error

/-!
# Cutting a text into tokens

`next` reads one token off a text that does not begin with a blank character, and `tokens` reads all of
them.
-/

namespace TensorFuzz.Check

def isIdentStart (c : Char) : Bool := c.isAlpha || c == '_'

def isIdentChar (c : Char) : Bool := c.isAlphanum || c == '_'

def digitsValue (digits : List Char) : Nat :=
  digits.foldl (fun n d => n * 10 + (d.toNat - '0'.toNat)) 0

/-- The token that the text begins with, and the text after it. A number with a point and digits after
it is a float; an integer must fit a signed 128-bit word. `whole` is the complete text, for messages. -/
def next (whole : String) : List Char → Except Error (Token × List Char)
  | [] => .error .unexpectedEnd
  | c :: rest =>
    if c.isDigit then
      let digits := c :: rest.takeWhile (·.isDigit)
      let after := rest.dropWhile (·.isDigit)
      match after with
      | '.' :: d :: places =>
        if d.isDigit then .ok (.float, places.dropWhile (·.isDigit))
        else integer digits after
      | _ => integer digits after
    else if c = '"' then
      match rest.dropWhile (· ≠ '"') with
      | [] => .error (.unterminated whole)
      | _ :: after => .ok (.string, after)
    else if isIdentStart c then
      .ok (.ident (String.ofList (c :: rest.takeWhile isIdentChar)), rest.dropWhile isIdentChar)
    else if c = '.' && (rest.head?.map (·.isAlpha)).getD false then
      .ok (.query (String.ofList (rest.takeWhile isIdentChar)), rest.dropWhile isIdentChar)
    else match symbol? (c :: rest) with
      | some (symbol, after) => .ok (.symbol symbol, after)
      | none => .error (.unexpectedChar c whole)
where
  integer (digits after : List Char) : Except Error (Token × List Char) :=
    let value := digitsValue digits
    if Fits128 value then .ok (.int value, after) else .error .integerTooLarge

/-- The tokens of a text of less than `fuel` characters, after those in `done`, newest first. -/
def scan (whole : String) : Nat → List Token → List Char → Except Error (List Token)
  | 0, _, _ => .error .tooDeep
  | fuel + 1, done, text =>
    match text.dropWhile Text.isBlank with
    | [] => .ok done.reverse
    | c :: rest =>
      match next whole (c :: rest) with
      | .ok (token, after) => scan whole fuel (token :: done) after
      | .error error => .error error

def tokens (text : String) : Except Error (List Token) :=
  scan text (text.toList.length + 1) [] text.toList

end TensorFuzz.Check
