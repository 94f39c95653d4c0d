import TensorFuzz.Json

/-!
# Texts of JSON values

Which texts stand for a value: blank characters may stand around every part, a character of a string may be written in
several ways, and an object may list its members in any order. The relation is one of texts alone: no reader occurs in
it.
-/

namespace TensorFuzz.Json

/-- A value; the only numbers are integers. -/
inductive Value
  | null
  | boolean (b : Bool)
  | integer (n : Int)
  | string (content : String)
  | list (items : List Value)
  | object (members : List (String × Value))

/-- The value has no parts. -/
def Value.IsScalar : Value → Prop
  | list _ | object _ => False
  | _ => True

/-- The members are the fields and others, in any order: the others have no known name and hold values without parts. -/
def Lists (known : List String) (fields members : List (String × Value)) : Prop :=
  ∃ others, members.Perm (fields ++ others) ∧ ∀ other ∈ others, other.1 ∉ known ∧ other.2.IsScalar

/-- Blank characters, if any. -/
def IsGap (gap : List Char) : Prop := ∀ c ∈ gap, isBlank c = true

instance (gap : List Char) : Decidable (IsGap gap) := List.decidableBAll _ gap

/-! ## Strings -/

/-- The letters that stand for a character behind a backslash. -/
def shortEscapes : List (Char × Char) :=
  [('"', '"'), ('\\', '\\'), ('/', '/'), ('b', '\x08'), ('f', '\x0c'), ('n', '\n'), ('r', '\r'), ('t', '\t')]

/-- Four hexadecimal digits for a number. -/
structure IsUnit (digits : List Char) (n : Nat) : Prop where
  length : digits.length = 4
  hexadecimal : ∀ d ∈ digits, Text.isHexDigit d = true
  value : Text.digitsValue 16 digits = n

/-- The text stands for the character in a string: the character itself, if it is no control character, a short escape,
or its code in hexadecimal, in two halves where four digits are not enough. -/
inductive Writes : List Char → Char → Prop
  | plain {c : Char} : c ≠ '"' → c ≠ '\\' → 0x20 ≤ c.toNat → Writes [c] c
  | short {letter c : Char} : (letter, c) ∈ shortEscapes → Writes ['\\', letter] c
  | unit {digits : List Char} {c : Char} : IsUnit digits c.toNat → Writes ('\\' :: 'u' :: digits) c
  | pair {high low : List Char} {c : Char} : 0x10000 ≤ c.toNat → IsUnit high (0xd800 + (c.toNat - 0x10000) / 0x400) →
      IsUnit low (0xdc00 + (c.toNat - 0x10000) % 0x400) → Writes ('\\' :: 'u' :: (high ++ '\\' :: 'u' :: low)) c

/-- The text stands for the characters one after the other. -/
inductive Inside : List Char → List Char → Prop
  | nil : Inside [] []
  | cons {front text cs : List Char} {c : Char} : Writes front c → Inside text cs → Inside (front ++ text) (c :: cs)

/-- The text is the string in quotes. -/
inductive Quoted : List Char → String → Prop
  | quotes {text : List Char} {content : String} : Inside text content.toList → Quoted ('"' :: (text ++ ['"'])) content

/-! ## Parts -/

section
variable {α : Type} (Part : List Char → α → Prop)

/-- Texts of the parts, at least one, with commas between them and gaps around them. -/
inductive Listed : List Char → List α → Prop
  | one {gap text gap' : List Char} {a : α} : IsGap gap → Part text a → IsGap gap' → Listed (gap ++ (text ++ gap')) [a]
  | more {gap text gap' others : List Char} {a : α} {as : List α} : IsGap gap → Part text a → IsGap gap' →
      Listed others as → Listed (gap ++ (text ++ (gap' ++ ',' :: others))) (a :: as)

/-- The parts between two brackets. -/
inductive Enclosed (opening closing : Char) : List Char → List α → Prop
  | none {gap : List Char} : IsGap gap → Enclosed opening closing (opening :: (gap ++ [closing])) []
  | some {text : List Char} {parts : List α} : Listed Part text parts →
      Enclosed opening closing (opening :: (text ++ [closing])) parts

/-- A name in quotes and a part for its value. -/
inductive Named : List Char → String × α → Prop
  | colon {key gap gap' text : List Char} {name : String} {a : α} : Quoted key name → IsGap gap → IsGap gap' →
      Part text a → Named (key ++ (gap ++ ':' :: (gap' ++ text))) (name, a)

end

/-! ## Values -/

/-- The text stands for the value. It begins and ends with no blank character. -/
inductive Spells : List Char → Value → Prop
  | null : Spells ['n', 'u', 'l', 'l'] .null
  | boolean (b : Bool) : Spells (toString b).toList (.boolean b)
  | integer (n : Int) : Spells (toString n).toList (.integer n)
  | string {text : List Char} {content : String} : Quoted text content → Spells text (.string content)
  | list {text : List Char} {items : List Value} : Enclosed Spells '[' ']' text items → Spells text (.list items)
  | object {text : List Char} {members : List (String × Value)} : Enclosed (Named Spells) '\x7b' '\x7d' text members →
      Spells text (.object members)

/-- The text of a document that holds the value. -/
inductive Documents (text : String) (v : Value) : Prop
  | around {gap inner gap' : List Char} : IsGap gap → Spells inner v → IsGap gap' →
      text.toList = gap ++ (inner ++ gap') → Documents text v

end TensorFuzz.Json
