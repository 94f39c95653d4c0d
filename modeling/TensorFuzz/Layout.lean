import TensorFuzz.Text.Blank

/-!
# Layout

Flat program text is laid out by its words alone: an opening brace ends its line and indents what
follows, a closing brace stands on a line of its own, and a semicolon ends its line. Some words attach
to the word before them, and any word attaches to an opening bracket before it.
-/

namespace TensorFuzz.Layout

structure State where
  /-- The text, newest character first. -/
  written : List Char
  /-- Opening braces less closing braces. -/
  level : Int
  atLineStart : Bool
  last : List Char

def State.start : State := ⟨[], 0, true, []⟩

/-- The words that attach to the word before them. -/
def attached : List (List Char) := [['('], [')'], [']'], [','], ['!']]

/-- The words that the next word attaches to. -/
def openers : List (List Char) := [['('], ['[']]

def indentation (level : Int) : List Char := List.replicate level.toNat '\t'

/-- The text in front of what is written, both newest first. -/
def State.push (s : State) (text : List Char) : List Char := text.reverseAux s.written

def step (s : State) (word : List Char) : State :=
  if word = ['\x7b'] then
    let opening := if s.atLineStart then ['\x7b', '\n'] else [' ', '\x7b', '\n']
    { written := s.push (opening ++ indentation (s.level + 1)), level := s.level + 1,
      atLineStart := true, last := word }
  else if word = ['\x7d'] then
    let indent := indentation (s.level - 1)
    { written := s.push (['\n'] ++ indent ++ ['\x7d', '\n'] ++ indent), level := s.level - 1,
      atLineStart := true, last := word }
  else if word = [';'] then
    { s with written := s.push ([';', '\n'] ++ indentation s.level), atLineStart := true,
             last := word }
  else if word ∈ attached ∨ s.last ∈ openers ∨ s.atLineStart then
    { s with written := s.push word, atLineStart := false, last := word }
  else
    { s with written := s.push (' ' :: word), atLineStart := false, last := word }

def layWords (words : List (List Char)) : List Char :=
  (words.foldl step State.start).written.reverse

def pretty (program : String) : String := String.ofList (layWords (Text.words program.toList))

end TensorFuzz.Layout
