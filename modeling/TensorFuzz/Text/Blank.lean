/-!
# Blank characters

The characters with the Unicode property White_Space, and the smaller set of blanks of ASCII text.
-/

namespace TensorFuzz.Text

/-- The character has the property White_Space. -/
def isBlank (c : Char) : Bool :=
  let n := c.toNat
  (0x9 ≤ n && n ≤ 0xd) || n == 0x20 || n == 0x85 || n == 0xa0 || n == 0x1680 ||
    (0x2000 ≤ n && n ≤ 0x200a) || n == 0x2028 || n == 0x2029 || n == 0x202f || n == 0x205f ||
    n == 0x3000

/-- A space, tab, line feed, form feed or carriage return. -/
def isAsciiBlank (c : Char) : Bool :=
  c == ' ' || c == '\t' || c == '\n' || c == '\x0c' || c == '\r'

theorem isBlank_of_isAsciiBlank {c : Char} (h : isAsciiBlank c = true) : isBlank c = true := by
  simp only [isAsciiBlank, Bool.or_eq_true, beq_iff_eq] at h
  rcases h with (((rfl | rfl) | rfl) | rfl) | rfl <;> decide

/-! ## Words -/

/-- The finished words, newest first, with the word that has just ended; letters of a word are kept in
reverse. -/
def endWord (done : List (List Char)) : List Char → List (List Char)
  | [] => done
  | letters => letters.reverse :: done

/-- The words of a text, after the finished words `done` and the letters of a word not yet ended. -/
def wordsAfter (done : List (List Char)) (letters : List Char) : List Char → List (List Char)
  | [] => (endWord done letters).reverse
  | c :: rest =>
    if isBlank c then wordsAfter (endWord done letters) [] rest
    else wordsAfter done (c :: letters) rest

/-- The maximal runs of characters that are not blank, in order. -/
def words (text : List Char) : List (List Char) := wordsAfter [] [] text

end TensorFuzz.Text
