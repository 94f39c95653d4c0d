import TensorFuzz.Ty
import TensorFuzz.Text.Blank
import TensorFuzz.Text.Printable

/-!
# Tokens of expressions

An expression text is cut into numbers, strings, identifiers, size queries and symbols. Blank characters
separate tokens and are dropped.
-/

namespace TensorFuzz.Check

inductive Symbol
  | atMost
  | atLeast
  | equal
  | unequal
  | dot
  | openParen
  | closeParen
  | openBracket
  | closeBracket
  | openBrace
  | closeBrace
  | comma
  | colon
  | question
  | bar
  | ampersand
  | bang
  | less
  | greater
  | plus
  | minus
  | star
  | slash
  | caret
  | hash
  | at
  deriving DecidableEq, Repr

def Symbol.text : Symbol → String
  | atMost => "<="
  | atLeast => ">="
  | equal => "=="
  | unequal => "!="
  | dot => ".*"
  | openParen => "("
  | closeParen => ")"
  | openBracket => "["
  | closeBracket => "]"
  | openBrace => "\x7b"
  | closeBrace => "\x7d"
  | comma => ","
  | colon => ":"
  | question => "?"
  | bar => "|"
  | ampersand => "&"
  | bang => "!"
  | less => "<"
  | greater => ">"
  | plus => "+"
  | minus => "-"
  | star => "*"
  | slash => "/"
  | caret => "^"
  | hash => "#"
  | .at => "@"

/-- The symbol that the text begins with, and the text after it. A symbol of two characters wins over
one of its first character. -/
def symbol? : List Char → Option (Symbol × List Char)
  | '<' :: '=' :: rest => some (.atMost, rest)
  | '>' :: '=' :: rest => some (.atLeast, rest)
  | '=' :: '=' :: rest => some (.equal, rest)
  | '!' :: '=' :: rest => some (.unequal, rest)
  | '.' :: '*' :: rest => some (.dot, rest)
  | '(' :: rest => some (.openParen, rest)
  | ')' :: rest => some (.closeParen, rest)
  | '[' :: rest => some (.openBracket, rest)
  | ']' :: rest => some (.closeBracket, rest)
  | '\x7b' :: rest => some (.openBrace, rest)
  | '\x7d' :: rest => some (.closeBrace, rest)
  | ',' :: rest => some (.comma, rest)
  | ':' :: rest => some (.colon, rest)
  | '?' :: rest => some (.question, rest)
  | '|' :: rest => some (.bar, rest)
  | '&' :: rest => some (.ampersand, rest)
  | '!' :: rest => some (.bang, rest)
  | '<' :: rest => some (.less, rest)
  | '>' :: rest => some (.greater, rest)
  | '+' :: rest => some (.plus, rest)
  | '-' :: rest => some (.minus, rest)
  | '*' :: rest => some (.star, rest)
  | '/' :: rest => some (.slash, rest)
  | '^' :: rest => some (.caret, rest)
  | '#' :: rest => some (.hash, rest)
  | '@' :: rest => some (.at, rest)
  | _ => none

inductive Token
  | int (value : Nat)
  | float
  | string
  | ident (name : String)
  /-- A word after a point, without the point. -/
  | query (name : String)
  | symbol (symbol : Symbol)
  deriving DecidableEq, Repr

def Token.text : Token → String
  | int value => "Int(" ++ toString value ++ ")"
  | float => "Float"
  | string => "Str"
  | ident name => "Ident(" ++ Text.quoted name ++ ")"
  | query name => "Query(" ++ Text.quoted name ++ ")"
  | .symbol s => "Punct(" ++ Text.quoted s.text ++ ")"

def Token.optionText : Option Token → String
  | none => "None"
  | some token => "Some(" ++ token.text ++ ")"

def Token.listText (tokens : List Token) : String :=
  "[" ++ ", ".intercalate (tokens.map Token.text) ++ "]"

end TensorFuzz.Check
