import TensorFuzz.Journal
import TensorFuzz.Journal.Pattern

/-!
# Journal filters

A filter is a list of rules, separated by commas. A rule may name the beginning of a target, a field that
an event must have, and the detail that is shown. The most specific rule that applies to an event decides:
a longer target before a shorter one, then a rule with a field before one without, and of equally specific
rules the last. A filter with a rule that cannot be read shows nothing.
-/

namespace TensorFuzz

structure FilterRule where
  target : List Char := []
  /-- The rule is about a section of a run, or about the value of a field; no event is in a section or
  is looked at so closely. -/
  isRemote : Bool := false
  field : Option (List Char) := none
  detail : Detail := .trace
  deriving DecidableEq, Repr

abbrev Filter := List FilterRule

namespace Filter

/-! ## Reading -/

def lowerCase (text : List Char) : List Char := text.map Char.toLower

/-- The number that decimal digits denote, with a plus sign or without. -/
def number? (text : List Char) : Option Nat :=
  let digits := if text.head? = some '+' then text.drop 1 else text
  if digits.isEmpty ∨ !digits.all (·.isDigit) then none
  else some (digits.foldl (fun n d => n * 10 + (d.toNat - '0'.toNat)) 0)

/-- The detail that a text names, by its name in any case or by its rank. -/
def detail? (text : List Char) : Option Detail :=
  match number? text with
  | some n => (Detail.named[n]?).map (·.2)
  | none => (Detail.named.find? fun (name, _) => name.toList == lowerCase text).map (·.2)

/-- The detail after an equals sign, all of it if there is none. -/
def detailAfter? (text : List Char) : Option Detail :=
  if text.isEmpty then some .trace else detail? text

/-- The text is a number without a sign: an infinity, none at all, or digits with or without a point and an
exponent. -/
def isNumber (text : List Char) : Bool :=
  let fraction := text.dropWhile (·.isDigit)
  let exponent := if fraction.head? = some '.' then (fraction.drop 1).dropWhile (·.isDigit) else fraction
  let hasDigits := (text.take (text.length - exponent.length)).any (·.isDigit)
  ["inf", "infinity", "nan"].contains (String.ofList (lowerCase text)) ||
    hasDigits &&
      match exponent with
      | [] => true
      | e :: digits =>
        let digits := match digits with
          | '+' :: rest | '-' :: rest => rest
          | _ => digits
        e.toLower == 'e' && !digits.isEmpty && digits.all (·.isDigit)

/-- The text can be asked for as the value of a field: it is a number or a pattern. A number is a pattern
unless a plus sign is before it, and no pattern begins with a plus sign. -/
def isValue (text : List Char) : Bool :=
  match text with
  | '+' :: rest => isNumber rest
  | _ => Pattern.isPattern text

/-- A character that a rule may begin with, apart from a bracket. -/
def isInitial (c : Char) : Bool :=
  Text.isAlphanumeric c || c == '-' || c == ':' || c == '_'

/-- The number of characters before the first one of the given marks. -/
def distance (marks : List Char) (text : List Char) : Nat :=
  (text.takeWhile fun c => !marks.contains c).length

/-- What is left of a rule: the text in which marks are looked for, without the blanks around the rule,
and the text that pieces are cut from, with them. -/
structure Rest where
  marks : List Char
  pieces : List Char

/-- The first characters of a text, as many as fit into a number of bytes. -/
def takeBytes (size : Nat) : List Char → List Char
  | [] => []
  | c :: rest => if c.utf8Size ≤ size then c :: takeBytes (size - c.utf8Size) rest else []

def byteCount (text : List Char) : Nat := (text.map (·.utf8Size)).foldl (· + ·) 0

/-- The piece as long as the first characters before the marks. -/
def Rest.take (rest : Rest) (n : Nat) : List Char :=
  takeBytes (byteCount (rest.marks.take n)) rest.pieces

def Rest.drop (rest : Rest) (n : Nat) : Rest :=
  ⟨rest.marks.drop n, rest.pieces.drop (rest.take n).length⟩

def ruleDetail? (rule : FilterRule) (rest : Rest) : Option FilterRule :=
  match rest.marks with
  | [] => some rule
  | c :: _ =>
    if c = '=' then (detailAfter? (rest.drop 1).pieces).map fun detail => { rule with detail }
    else none

/-- The rule with a field, and with the value asked for between a first equals sign and a second. -/
def withField? (rule : FilterRule) (text : List Char) : Option FilterRule :=
  let name := text.takeWhile (· != '=')
  let rule := { rule with field := some name }
  match text.drop name.length with
  | [] => if name.isEmpty then none else some rule
  | _ :: value =>
    if isValue (value.takeWhile (· != '=')) then some { rule with isRemote := true } else none

/-- The rule with the field in braces, up to the closing bracket, and what follows. -/
def ruleField? (rule : FilterRule) (rest : Rest) : Option FilterRule :=
  let n := distance ['\x7d'] rest.marks
  match rest.marks.drop n with
  | '\x7d' :: ']' :: _ => do ruleDetail? (← withField? rule (rest.take n)) (rest.drop (n + 2))
  | _ => none

/-- The rule with the section and the field in brackets, from the section on, and what follows. -/
def ruleSection? (rule : FilterRule) (rest : Rest) : Option FilterRule :=
  let n := distance [']', '\x7b'] rest.marks
  match rest.marks.drop n with
  | ']' :: _ => ruleDetail? { rule with isRemote := true } (rest.drop (n + 1))
  | '\x7b' :: _ =>
    ruleField? { rule with isRemote := !(rest.take n).isEmpty } (rest.drop (n + 1))
  | _ => none

def rule? (text : List Char) : Option FilterRule :=
  let trimmed := ((text.dropWhile Text.isBlank).reverse.dropWhile Text.isBlank).reverse
  let whole : Rest := ⟨trimmed, text⟩
  match trimmed with
  | [] => none
  | '[' :: _ => ruleSection? {} (whole.drop 1)
  | c :: _ =>
    if !isInitial c then none
    else
      let n := distance ['=', '['] trimmed
      let target := whole.take n
      match trimmed.drop n with
      | '=' :: _ => ruleDetail? { target } (whole.drop n)
      | '[' :: _ => ruleSection? { target } (whole.drop (n + 1))
      | _ =>
        match detail? text with
        | some detail => some { detail }
        | none => some { target := text }

/-- The pieces of a text between commas, after the letters of a piece not yet ended, in reverse. -/
def pieces (letters : List Char) : List Char → List (List Char)
  | [] => [letters.reverse]
  | c :: rest => if c = ',' then letters.reverse :: pieces [] rest else pieces (c :: letters) rest

/-- The filter that a text is. Empty rules are ignored. -/
def parse? (text : String) : Option Filter :=
  ((pieces [] text.toList).filter (! ·.isEmpty)).mapM rule?

/-! ## Filtering -/

/-- The names of what a rule can ask of an event: its fields, and its message. -/
def fieldNames (e : Event) : List (List Char) :=
  "message".toList :: e.fields.map fun (name, _) => name.toList

def applies (e : Event) (rule : FilterRule) : Bool :=
  !rule.isRemote && rule.target.isPrefixOf e.target.toList &&
    match rule.field with
    | some name => (fieldNames e).contains name
    | none => true

/-- The first rule is more specific than the second, both of which apply to one event. Of rules that
differ only in their field the later in the order of names is taken for the more specific. -/
def isMoreSpecific (a b : FilterRule) : Bool :=
  if a.target.length ≠ b.target.length then b.target.length < a.target.length
  else match a.field, b.field with
    | some x, some y => y < x
    | some _, none => true
    | none, _ => false

/-- The rule that decides about an event. -/
def deciding? (filter : Filter) (e : Event) : Option FilterRule :=
  (filter.filter (applies e)).foldl (fun best rule =>
    match best with
    | none => some rule
    | some best => if isMoreSpecific best rule then some best else some rule) none

def shows (filter : Filter) (e : Event) : Bool :=
  match deciding? filter e with
  | some rule => e.detail.rank ≤ rule.detail.rank
  | none => false

end Filter

end TensorFuzz
