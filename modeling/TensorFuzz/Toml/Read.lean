import TensorFuzz.Word
import TensorFuzz.Text.Digits
import TensorFuzz.Toml.Document

/-!
# Reading configuration documents

A document is read line by line: headers, keys with values, comments and blank lines. A text that is no
document is refused without a reason.
-/

namespace TensorFuzz.Toml

abbrev Reader := StateT (List Char) Option

/-! ## Characters and lines -/

def isBlank (c : Char) : Bool := c == ' ' || c == '\t'

/-- A character that may stand in a comment or in quotes: no control character but the tab. -/
def isVisible (c : Char) : Bool := c == '\t' || (0x20 ≤ c.toNat && c.toNat != 0x7f)

def skipBlanks : Reader Unit := modify (·.dropWhile isBlank)

def eat (c : Char) : Reader Bool := do
  match ← get with
  | d :: rest => if d = c then set rest; return true else return false
  | [] => return false

def expect (c : Char) : Reader Unit := do
  if !(← eat c) then failure

def peek : Reader Char := do
  match ← get with
  | c :: _ => return c
  | [] => failure

def word (letters : List Char) : Reader Unit := do
  let text ← get
  if letters.isPrefixOf text then set (text.drop letters.length) else failure

def eatNewline : Reader Bool := do
  match ← get with
  | '\n' :: rest => set rest; return true
  | '\r' :: '\n' :: rest => set rest; return true
  | _ => return false

def skipComment : Reader Unit := do
  if ← eat '#' then modify (·.dropWhile isVisible)

def lineEnd : Reader Unit := do
  if !(← get).isEmpty then
    if !(← eatNewline) then failure

def lineRest : Reader Unit := do
  skipBlanks
  skipComment
  lineEnd

/-- Drops blanks, line breaks and comments, at most `fuel` of them. -/
def skipSpace : Nat → Reader Unit
  | 0 => return ()
  | fuel + 1 => do
    skipBlanks
    match (← get).head? with
    | some '#' =>
      skipComment
      if !(← eatNewline) then failure
      skipSpace fuel
    | some '\n' | some '\r' =>
      if !(← eatNewline) then failure
      skipSpace fuel
    | _ => return ()

def space : Reader Unit := do skipSpace (← get).length

/-! ## Strings -/

/-- The character of exactly `count` hexadecimal digits. -/
def codePoint (count : Nat) : Reader Char := do
  let text ← get
  let digits := (text.take count).takeWhile Text.isHexDigit
  if digits.length = count then
    set (text.drop count)
    match Text.charOf? (Text.digitsValue 16 digits) with
    | some c => return c
    | none => failure
  else failure

def escaped : Reader Char := do
  let c ← peek
  modify (·.drop 1)
  match c with
  | 'b' => return '\x08'
  | 't' => return '\t'
  | 'n' => return '\n'
  | 'f' => return '\x0c'
  | 'r' => return '\r'
  | '"' => return '"'
  | '\\' => return '\\'
  | 'u' => codePoint 4
  | 'U' => codePoint 8
  | _ => failure

/-- The rest of a string up to its closing quote, of less than `fuel` characters. -/
def stringTail (quote : Char) : Nat → List Char → Reader String
  | 0, _ => failure
  | fuel + 1, done => do
    let c ← peek
    modify (·.drop 1)
    if c = quote then return String.ofList done.reverse
    else if c = '\\' ∧ quote = '"' then stringTail quote fuel ((← escaped) :: done)
    else if isVisible c then stringTail quote fuel (c :: done)
    else failure

/-- A string of one line, from its opening quote on. A double quote allows escapes. -/
def lineString : Reader String := do
  let quote ← peek
  modify (·.drop 1)
  stringTail quote ((← get).length + 1) []

/-- Drops the rest of a line that ends in a backslash, if only blanks follow, and all blanks and line
breaks after it. -/
def eatJoint : Reader Bool := do
  let text ← get
  skipBlanks
  if ← eatNewline then
    modify fun text => dropSpace text.length text
    return true
  else
    set text
    return false
where
  dropSpace : Nat → List Char → List Char
    | fuel + 1, ' ' :: rest => dropSpace fuel rest
    | fuel + 1, '\t' :: rest => dropSpace fuel rest
    | fuel + 1, '\n' :: rest => dropSpace fuel rest
    | fuel + 1, '\r' :: '\n' :: rest => dropSpace fuel rest
    | _, text => text

/-- The rest of a string of several lines, of less than `fuel` characters. Up to two quotes may stand
in it, also right before the closing ones. -/
def blockTail (quote : Char) : Nat → List Char → Reader String
  | 0, _ => failure
  | fuel + 1, done => do
    if ← eatNewline then blockTail quote fuel ('\n' :: done)
    else
      let c ← peek
      if c = quote then
        let quotes := ((← get).takeWhile (· = quote)).length
        if quotes < 3 then
          modify (·.drop quotes)
          blockTail quote fuel (List.replicate quotes quote ++ done)
        else
          let kept := min quotes 5 - 3
          modify (·.drop (kept + 3))
          return String.ofList (List.replicate kept quote ++ done).reverse
      else
        modify (·.drop 1)
        if c = '\\' ∧ quote = '"' then
          if ← eatJoint then blockTail quote fuel done
          else blockTail quote fuel ((← escaped) :: done)
        else if isVisible c then blockTail quote fuel (c :: done)
        else failure

/-- A string, from its opening quotes on. A line break right after three opening quotes is dropped. -/
def string : Reader String := do
  let quote ← peek
  if [quote, quote, quote].isPrefixOf (← get) then
    modify (·.drop 3)
    let _ ← eatNewline
    blockTail quote ((← get).length + 1) []
  else lineString

/-! ## Numbers -/

def moreDigits (isDigit : Char → Bool) : List Char → Option (List Char × List Char)
  | [] => some ([], [])
  | ['_'] => none
  | '_' :: d :: rest =>
    if isDigit d then (moreDigits isDigit rest).map fun (ds, rest) => (d :: ds, rest) else none
  | d :: rest =>
    if isDigit d then (moreDigits isDigit rest).map fun (ds, rest) => (d :: ds, rest)
    else some ([], d :: rest)

/-- At least one digit. -/
def digits (isDigit : Char → Bool) : Reader (List Char) := do
  match ← get with
  | d :: rest =>
    if isDigit d then
      let (ds, rest) ← moreDigits isDigit rest
      set rest
      return d :: ds
    else failure
  | [] => failure

def bounded (n : Int) : Reader Value :=
  if Fits64 n then return .integer n else failure

/-- An integer in another base, from its first digit on. -/
def based (base : Nat) (isDigit : Char → Bool) : Reader Value := do
  modify (·.drop 2)
  bounded (Text.digitsValue base (← digits isDigit))

/-- The digits of a decimal integer. After a zero no digit is taken. -/
def wholeDigits : Reader (List Char) := do
  match ← get with
  | '0' :: rest => set rest; return ['0']
  | _ => digits (·.isDigit)

def fractionDigits : Reader (Option (List Char)) := do
  if ← eat '.' then return some (← digits (·.isDigit)) else return none

def exponent : Reader (Option Int) := do
  if (← eat 'e') || (← eat 'E') then
    let isNegative ← eat '-'
    if !isNegative then
      let _ ← eat '+'
    let size : Int := Text.digitsValue 10 (← digits (·.isDigit))
    return some (if isNegative then -size else size)
  else return none

/-- A decimal integer or a float, after its sign. A float that is too large is refused unless it is
negative. -/
def decimal (isNegative : Bool) : Reader Value := do
  let whole ← wholeDigits
  let fraction ← fractionDigits
  let exponent ← exponent
  if fraction.isNone ∧ exponent.isNone then
    let n : Int := Text.digitsValue 10 whole
    bounded (if isNegative then -n else n)
  else
    let places := fraction.getD []
    let scale := exponent.getD 0 - places.length
    if !isNegative ∧ Text.overflowsDouble (Text.digitsValue 10 (whole ++ places)) scale then failure
    return .float

def number : Reader Value := do
  let text ← get
  match text with
  | '0' :: 'x' :: _ => based 16 Text.isHexDigit
  | '0' :: 'o' :: _ => based 8 fun c => '0' ≤ c && c ≤ '7'
  | '0' :: 'b' :: _ => based 2 fun c => c == '0' || c == '1'
  | _ =>
    let isNegative ← eat '-'
    if !isNegative then
      let _ ← eat '+'
    match (← get).head? with
    | some 'i' => word ['i', 'n', 'f']; return .float
    | some 'n' => word ['n', 'a', 'n']; return .float
    | _ => decimal isNegative

/-! ## Dates and times -/

/-- The text begins with `count` digits and then the given mark. -/
def startsWithDigits (count : Nat) (mark : Char) (text : List Char) : Bool :=
  (text.take count).all (·.isDigit) && (text.drop count).head? == some mark &&
    count < text.length

/-- A number of exactly `count` digits from `low` to `high`. -/
def digitsIn (count low high : Nat) : Reader Nat := do
  let text ← get
  let ds := text.take count
  if ds.length = count ∧ ds.all (·.isDigit) then
    let n := Text.digitsValue 10 ds
    if low ≤ n ∧ n ≤ high then
      set (text.drop count)
      return n
    else failure
  else failure

def daysIn (year month : Nat) : Nat :=
  if month = 2 then
    if year % 4 = 0 ∧ (year % 100 ≠ 0 ∨ year % 400 = 0) then 29 else 28
  else if month ∈ [4, 6, 9, 11] then 30
  else 31

def date : Reader Unit := do
  let year ← digitsIn 4 0 9999
  expect '-'
  let month ← digitsIn 2 1 12
  expect '-'
  let _ ← digitsIn 2 1 (daysIn year month)

/-- A time of day; a minute may have a leap second. -/
def time : Reader Unit := do
  let _ ← digitsIn 2 0 23
  expect ':'
  let _ ← digitsIn 2 0 59
  expect ':'
  let _ ← digitsIn 2 0 60
  if ← eat '.' then
    if !(← peek).isDigit then failure
    modify (·.dropWhile (·.isDigit))

def offset : Reader Unit := do
  match (← get).head? with
  | some 'Z' | some 'z' => modify (·.drop 1)
  | some '+' | some '-' =>
    modify (·.drop 1)
    let _ ← digitsIn 2 0 23
    expect ':'
    let _ ← digitsIn 2 0 59
  | _ => return ()

/-- A date, with a time and an offset or without. -/
def dateTime : Reader Value := do
  date
  match ← get with
  | mark :: rest =>
    if (mark = 'T' ∨ mark = 't' ∨ mark = ' ') ∧ startsWithDigits 2 ':' rest then
      set rest
      time
      offset
  | [] => pure ()
  return .dateTime

def numeric : Reader Value := do
  let text ← get
  if startsWithDigits 4 '-' text then dateTime
  else if startsWithDigits 2 ':' text then
    time
    return .dateTime
  else number

/-! ## Keys -/

/-- A character of a key without quotes. -/
def isBareKey (c : Char) : Bool := c.isAlphanum || c == '-' || c == '_'

def simpleKey : Reader String := do
  let c ← peek
  if c = '"' ∨ c = '\'' then lineString
  else if isBareKey c then
    let text ← get
    set (text.dropWhile isBareKey)
    return String.ofList (text.takeWhile isBareKey)
  else failure

/-- The parts of a dotted key, at most `fuel` of them. -/
def keyParts : Nat → Reader (List String)
  | 0 => failure
  | fuel + 1 => do
    skipBlanks
    let part ← simpleKey
    skipBlanks
    if ← eat '.' then return part :: (← keyParts fuel) else return [part]

/-- How deep values may be nested and how many parts keys may have, plus one. -/
def nestingLimit : Nat := 80

def key : Reader (List String × String) := do
  let parts ← keyParts (nestingLimit - 1)
  match parts.getLast? with
  | some last => return (parts.dropLast, last)
  | none => failure

/-! ## Values -/

/-- The items of a list from one on, at most `fuel` of them. The last may have a comma after it. -/
def items (value : Reader Value) : Nat → Reader (List Value)
  | 0 => failure
  | fuel + 1 => do
    let item ← value
    space
    if ← eat ',' then
      space
      if ← eat ']' then return [item]
      return item :: (← items value fuel)
    else
      expect ']'
      return [item]

/-- The entries of a table in braces from one on, at most `fuel` of them, after those given. -/
def inlineEntries (value : Reader Value) :
    Nat → List (String × Value) → Reader (List (String × Value))
  | 0, _ => failure
  | fuel + 1, entries => do
    let (path, key) ← key
    expect '='
    skipBlanks
    let v ← value
    skipBlanks
    let entries ← addInline entries path key v
    if ← eat ',' then inlineEntries value fuel entries
    else
      expect '\x7d'
      return entries

/-- A value. A list or a table in braces is read only where values may be nested further, with the given
reader for what it holds. -/
def valueWith (nested : Option (Reader Value)) : Reader Value := do
  match ← peek with
  | '"' | '\'' => return .string (← string)
  | '[' =>
    let inner ← nested
    modify (·.drop 1)
    space
    if ← eat ']' then return .list []
    return .list (← items inner ((← get).length + 1))
  | '\x7b' =>
    let inner ← nested
    modify (·.drop 1)
    skipBlanks
    if ← eat '\x7d' then return .table .opened []
    return .table .opened (← inlineEntries inner ((← get).length + 1) [])
  | 't' => word ['t', 'r', 'u', 'e']; return .boolean true
  | 'f' => word ['f', 'a', 'l', 's', 'e']; return .boolean false
  | 'i' => word ['i', 'n', 'f']; return .float
  | 'n' => word ['n', 'a', 'n']; return .float
  | _ => numeric

/-- A value whose lists and tables are nested at most `levels` deep. -/
def value : Nat → Reader Value
  | 0 => valueWith none
  | levels + 1 => valueWith (some (value levels))

/-! ## Documents -/

/-- A document under construction, and the header that its next keys belong to. -/
structure Draft where
  entries : Entries
  header : List String

/-- A header, from its bracket on. -/
def header (draft : Draft) : Reader Draft := do
  expect '['
  if ← eat '[' then
    let (path, key) ← key
    word [']', ']']
    lineRest
    return ⟨← openMember path key draft.entries, path ++ [key]⟩
  else
    let (path, key) ← key
    expect ']'
    lineRest
    return ⟨← openTable path key draft.entries, path ++ [key]⟩

def keyValue (draft : Draft) : Reader Draft := do
  let (path, key) ← key
  expect '='
  skipBlanks
  let v ← value (nestingLimit - 1)
  lineRest
  return { draft with entries := ← addValue draft.header path key v draft.entries }

/-- The lines of a document, at most `fuel` of them. -/
def lines : Nat → Draft → Reader Draft
  | 0, _ => failure
  | fuel + 1, draft => do
    skipBlanks
    match (← get).head? with
    | none => return draft
    | some '#' =>
      skipComment
      lineEnd
      lines fuel draft
    | some '\n' | some '\r' =>
      if !(← eatNewline) then failure
      lines fuel draft
    | some '[' => lines fuel (← header draft)
    | some _ => lines fuel (← keyValue draft)

/-- The entries of a document. A byte order mark at its beginning is dropped. -/
def parse? (text : String) : Option Entries := do
  let text := text.toList
  let text := if text.head? = some '\ufeff' then text.drop 1 else text
  let (draft, _) ← (lines (text.length + 1) ⟨[], []⟩).run text
  return draft.entries

end TensorFuzz.Toml
