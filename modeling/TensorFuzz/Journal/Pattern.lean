import TensorFuzz.Text.Blank
import TensorFuzz.Text.Digits
import TensorFuzz.Text.Letter

/-!
# Patterns

The value of a field can be compared with a pattern, a regular expression. Which values match it is never
asked, only whether a text is a pattern at all.

A pattern is about characters, unless the option `u` is switched off: then it is about bytes, and no part
of it may match a byte outside ASCII by itself. What a word, a digit, a blank and the other case of a
letter are is known for ASCII only, so that a pattern about characters cannot ask for them. Parts are
nested 250 deep at most.

A pattern stands between braces in a list with commas, so that it holds neither a closing brace nor a
comma: an opening brace outside of a set begins nothing that could end.
-/

namespace TensorFuzz.Pattern

/-! ## Options -/

structure Options where
  ignoresCase : Bool := false
  isUnicode : Bool := true
  isSpaced : Bool := false
  deriving DecidableEq, Repr

/-- The options after one of them, known by its letter, is switched. -/
def Options.switch (isOn : Bool) (options : Options) (letter : Char) : Options :=
  match letter with
  | 'i' => { options with ignoresCase := isOn }
  | 'u' => { options with isUnicode := isOn }
  | 'x' => { options with isSpaced := isOn }
  | _ => options

def optionLetters : List Char := ['i', 'm', 's', 'R', 'u', 'U', 'x']

/-- The options after switches: those before a dash go on, those after it off. None may be repeated, and
the dash is followed by an option. -/
def Options.switchAll? (options : Options) (letters : List Char) : Option Options :=
  if letters.all ('-' :: optionLetters).contains ∧ letters.Nodup ∧ letters.getLast? ≠ some '-' then
    let (on, off) := letters.span (· != '-')
    some (off.foldl (switch false) (on.foldl (switch true) options))
  else none

/-! ## Nesting -/

/-- Parts that follow one another, as far as nesting goes. -/
structure Parts where
  count : Nat := 0
  /-- How deep the deepest of the parts is nested. -/
  depth : Nat := 0
  /-- How deep the last part is nested, if a repetition can follow it. -/
  last : Option Nat := none
  deriving DecidableEq, Repr

namespace Parts

def add (parts : Parts) (depth : Nat) : Parts :=
  { count := parts.count + 1, depth := max parts.depth depth, last := some depth }

/-- The parts with a switch of options, which cannot be repeated. -/
def addSwitch (parts : Parts) : Parts := { parts with count := parts.count + 1, last := none }

def repeatLast? (parts : Parts) : Option Parts :=
  parts.last.map fun depth =>
    { parts with depth := max parts.depth (depth + 1), last := some (depth + 1) }

/-- How deep the parts are nested together: several of them are a part of their own. -/
def nesting (parts : Parts) : Nat := if parts.count ≤ 1 then parts.depth else parts.depth + 1

end Parts

/-! ## Reading -/

/-- What is left of a pattern, and what has been settled by what was before it. -/
structure Cursor where
  rest : List Char
  options : Options := {}
  /-- The names of groups. -/
  names : List (List Char) := []

abbrev Reader := StateT Cursor Option

def take : Reader Char := do
  let cursor ← get
  match cursor.rest with
  | c :: rest => set { cursor with rest }; return c
  | [] => failure

def eat (c : Char) : Reader Bool := do
  let cursor ← get
  match cursor.rest with
  | d :: rest => if d = c then set { cursor with rest }; return true else return false
  | [] => return false

/-- Goes on only if the condition holds. -/
def require (condition : Bool) : Reader Unit := if condition then return () else failure

/-- The text after blanks and comments. A comment lasts from a number sign to the end of its line. -/
def dropIgnored (inComment : Bool) : List Char → List Char
  | [] => []
  | c :: rest =>
    if inComment then dropIgnored (c != '\n') rest
    else if Text.isBlank c then dropIgnored false rest
    else if c = '#' then dropIgnored true rest
    else c :: rest

def skip : Reader Unit := modify fun cursor =>
  if cursor.options.isSpaced then { cursor with rest := dropIgnored false cursor.rest } else cursor

/-! ### Single characters -/

/-- What stands for a character, for a kind of character, or for a place between two. -/
inductive Atom
  /-- A character, which may be written by its number as a byte. -/
  | letter (c : Char) (isByte : Bool)
  /-- A digit, a blank or a character of words, or whatever is none. -/
  | kind (isNegated : Bool)
  /-- The beginning or end of a text or a line. -/
  | edge
  /-- The beginning or end of a word, or any other place. -/
  | wordEdge
  deriving DecidableEq, Repr

namespace Atom

/-- The atom can stand outside of a set. -/
def isAllowed (options : Options) : Atom → Bool
  | letter c isByte =>
    if options.isUnicode then !options.ignoresCase else !isByte || c.toNat < 0x80
  | kind isNegated => !options.isUnicode && !isNegated
  | edge => true
  | wordEdge => !options.isUnicode

def isMember (options : Options) : Atom → Bool
  | letter c _ => if options.isUnicode then !options.ignoresCase else c.toNat < 0x80
  | kind isNegated => !options.isUnicode && !isNegated
  | edge | wordEdge => false

/-- A range of characters from the first atom to the second can be a member of a set. -/
def isRange (options : Options) : Atom → Atom → Bool
  | letter c isByte, letter d isByte' =>
    isMember options (letter c isByte) && isMember options (letter d isByte') && c ≤ d
  | _, _ => false

end Atom

/-- A number of hexadecimal digits, after those already read, in reverse. -/
def hexDigits : Nat → List Char → Reader (List Char)
  | 0, done => return done.reverse
  | count + 1, done => do
    skip
    let c ← take
    require (Text.isHexDigit c)
    hexDigits count (c :: done)

/-- The character with the code point of a number of hexadecimal digits. -/
def codePoint (count : Nat) : Reader Char := do
  match Text.charOf? (Text.digitsValue 16 (← hexDigits count [])) with
  | some c => return c
  | none => failure

def escaped : Reader Atom := do
  match ← take with
  | 'a' => return .letter '\x07' false
  | 'f' => return .letter '\x0c' false
  | 'n' => return .letter '\n' false
  | 'r' => return .letter '\r' false
  | 't' => return .letter '\t' false
  | 'v' => return .letter '\x0b' false
  | 'x' => return .letter (← codePoint 2) true
  | 'u' => return .letter (← codePoint 4) false
  | 'U' => return .letter (← codePoint 8) false
  | 'd' | 's' | 'w' => return .kind false
  | 'D' | 'S' | 'W' => return .kind true
  | 'A' | 'z' => return .edge
  | 'b' | 'B' | '<' | '>' => return .wordEdge
  | c =>
    require (c.toNat < 0x80 && !c.isAlphanum)
    return .letter c false

def atom (c : Char) : Reader Atom :=
  if c = '\\' then escaped else return .letter c false

/-! ### Sets -/

def setNames : List String :=
  ["alnum", "alpha", "ascii", "blank", "cntrl", "digit", "graph", "lower", "print", "punct",
    "space", "upper", "word", "xdigit"]

/-- Whether a set given by name, of which the opening bracket has been read, is negated, and the text
after it. -/
def namedSet? (text : List Char) : Option (Bool × List Char) :=
  match text with
  | ':' :: text =>
    let isNegated := text.head? == some '^'
    let text := if isNegated then text.drop 1 else text
    let name := text.takeWhile (· != ':')
    match text.drop name.length with
    | ':' :: ']' :: rest =>
      if setNames.contains (String.ofList name) then some (isNegated, rest) else none
    | _ => none
  | _ => none

/-- The next character but those that are ignored, and but one number sign. -/
def ahead (options : Options) (text : List Char) : Option Char :=
  if options.isSpaced then
    match text.dropWhile Text.isBlank with
    | '#' :: rest => (rest.dropWhile Text.isBlank).head?
    | rest => rest.head?
  else text.head?

/-- The member of a set that begins with the character: an atom, or two of them with a dash between. A
dash before the end of the set or before another dash is not between two. -/
def member (c : Char) : Reader Unit := do
  let first ← atom c
  skip
  let cursor ← get
  let isRange := match cursor.rest with
    | '-' :: rest => !([some ']', some '-'].contains (ahead cursor.options rest))
    | _ => false
  if isRange then
    let _ ← take
    skip
    let last ← atom (← take)
    require (first.isRange cursor.options last)
  else require (first.isMember cursor.options)

/-- How deep an operator between two sets is nested, the left one if there is one. -/
def combined (left : Option Nat) (right : Nat) : Nat :=
  match left with
  | some left => max left right + 1
  | none => right

/-- The beginning of a set, after its bracket. A negated set of bytes would have members outside ASCII. -/
def setStart : Reader Unit := do
  skip
  if ← eat '^' then require (← get).options.isUnicode

/-- How deep the rest of a set is nested, up to its closing bracket, with fewer than `fuel` members. Dashes
at the start are members, and so is a bracket that closes nothing. -/
def setRest : (fuel : Nat) → (atStart : Bool) → (left : Option Nat) → Parts → Reader Nat
  | 0, _, _, _ => failure
  | fuel + 1, atStart, left, parts => do
    skip
    let options := (← get).options
    let c ← take
    let rest := (← get).rest
    if c = '-' ∧ atStart then
      require ((Atom.letter c false).isMember options)
      setRest fuel true left (parts.add 0)
    else if c = ']' ∧ atStart ∧ parts.count = 0 then
      require ((Atom.letter c false).isMember options)
      setRest fuel false left (parts.add 0)
    else if c = ']' then return combined left parts.nesting
    else if c = '[' then
      match namedSet? rest with
      | some (isNegated, rest) =>
        require (if options.isUnicode then !options.ignoresCase else !isNegated)
        modify ({ · with rest })
        setRest fuel false left (parts.add 0)
      | none =>
        setStart
        let depth ← setRest fuel true none {}
        setRest fuel false left (parts.add (depth + 1))
    else if (c = '&' ∨ c = '-' ∨ c = '~') ∧ rest.head? = some c then
      let _ ← take
      setRest fuel false (some (combined left parts.nesting)) {}
    else
      member c
      setRest fuel false left (parts.add 0)

/-! ### Groups -/

def isNameStart (c : Char) : Bool := c == '_' || Text.isAlphabetic c

def isNameRest (c : Char) : Bool :=
  c == '_' || c == '.' || c == '[' || c == ']' || Text.isAlphanumeric c

/-- The name of a group and the bracket that closes it. Names differ. -/
def groupName : Reader Unit := do
  let cursor ← get
  let name := cursor.rest.takeWhile (· != '>')
  match name, cursor.rest.drop name.length with
  | c :: others, '>' :: rest =>
    require (isNameStart c && others.all isNameRest && !cursor.names.contains name)
    set { cursor with rest, names := name :: cursor.names }
  | _, _ => failure

/-- What follows an opening parenthesis, before the inside of a group. It is no group if the parenthesis
is closed after a switch of options. -/
def groupStart : Reader Bool := do
  skip
  let cursor ← get
  match cursor.rest with
  | '?' :: 'P' :: '<' :: rest | '?' :: '<' :: rest =>
    set { cursor with rest }
    groupName
    return true
  | '?' :: rest =>
    let letters := rest.takeWhile fun c => c != ':' && c != ')'
    match cursor.options.switchAll? letters, rest.drop letters.length with
    | some options, ':' :: rest =>
      set { cursor with rest, options }
      return true
    | some options, ')' :: rest =>
      require (!letters.isEmpty)
      set { cursor with rest, options }
      return false
    | _, _ => failure
  | _ => return true

/-! ### Patterns -/

/-- How deep the rest of a pattern is nested, up to the end or to a parenthesis that closes the group
around it, with fewer than `fuel` parts; the branches before this one and the parts read of it are given. A
switch of options holds up to the end of the group. -/
def branches : (fuel : Nat) → (done : Parts) → (parts : Parts) → Reader Nat
  | 0, _, _ => failure
  | fuel + 1, done, parts => do
    skip
    let cursor ← get
    match cursor.rest with
    | [] | ')' :: _ => return (done.add parts.nesting).nesting
    | c :: rest =>
      set { cursor with rest }
      if c = '|' then branches fuel (done.add parts.nesting) {}
      else if c = '*' ∨ c = '+' ∨ c = '?' then
        match parts.repeatLast? with
        | some parts =>
          let _ ← eat '?'
          branches fuel done parts
        | none => failure
      else if c = '(' then
        if ← groupStart then
          let depth ← branches fuel {} {}
          require (← eat ')')
          modify ({ · with options := cursor.options })
          branches fuel done (parts.add (depth + 1))
        else branches fuel done parts.addSwitch
      else if c = '[' then
        setStart
        let depth ← setRest (rest.length + 1) true none {}
        branches fuel done (parts.add (depth + 1))
      else if c = '\x7b' then failure
      else
        if c = '.' then require cursor.options.isUnicode
        else if c != '^' && c != '$' then require ((← atom c).isAllowed cursor.options)
        branches fuel done (parts.add 0)

def maxNesting : Nat := 250

def isPattern (text : List Char) : Bool :=
  match (branches (text.length + 1) {} {}).run { rest := text } with
  | some (nesting, cursor) => cursor.rest.isEmpty && nesting ≤ maxNesting
  | none => false

end TensorFuzz.Pattern
