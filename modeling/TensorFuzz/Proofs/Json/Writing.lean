import TensorFuzz.Json
import TensorFuzz.Proofs.Json.Reading

/-!
# Written values

The quoted form of a string is one of its texts, and so is what is written for an integer.
-/

namespace TensorFuzz.Json

/-! ## Strings -/

theorem isUnit_small : ∀ n < 0x10, IsUnit ('0' :: '0' :: '0' :: (Text.hexadecimal n).toList) n := by
  have h : ∀ n < 0x10, ('0' :: '0' :: '0' :: (Text.hexadecimal n).toList).length = 4 ∧
      ('0' :: '0' :: '0' :: (Text.hexadecimal n).toList).all Text.isHexDigit = true ∧
        Text.digitsValue 16 ('0' :: '0' :: '0' :: (Text.hexadecimal n).toList) = n := by decide
  intro n hn
  obtain ⟨hlength, hdigits, hvalue⟩ := h n hn
  exact ⟨hlength, List.all_eq_true.mp hdigits, hvalue⟩

theorem isUnit_control : ∀ n < 0x20, 0x10 ≤ n → IsUnit ('0' :: '0' :: (Text.hexadecimal n).toList) n := by
  have h : ∀ n < 0x20, 0x10 ≤ n → ('0' :: '0' :: (Text.hexadecimal n).toList).length = 4 ∧
      ('0' :: '0' :: (Text.hexadecimal n).toList).all Text.isHexDigit = true ∧
        Text.digitsValue 16 ('0' :: '0' :: (Text.hexadecimal n).toList) = n := by decide
  intro n hn hlarge
  obtain ⟨hlength, hdigits, hvalue⟩ := h n hn hlarge
  exact ⟨hlength, List.all_eq_true.mp hdigits, hvalue⟩

/-- A character stands for itself unless it is a quote, a backslash or a control character. -/
theorem escape_writes (c : Char) : Writes (escape c).toList c := by
  have hshort (letter c : Char) (h : (letter, c) ∈ shortEscapes) : Writes ("\\" ++ letter.toString).toList c := by
    rw [String.toList_append, Char.toString, String.toList_singleton]
    exact .short h
  unfold escape
  split
  · exact hshort '"' '"' (by decide)
  · exact hshort '\\' '\\' (by decide)
  · exact hshort 'b' '\x08' (by decide)
  · exact hshort 'f' '\x0c' (by decide)
  · exact hshort 'n' '\n' (by decide)
  · exact hshort 'r' '\r' (by decide)
  · exact hshort 't' '\t' (by decide)
  · next hquote hescape _ _ _ _ _ =>
    split
    · next hsmall =>
      rw [String.toList_append]
      exact .unit (isUnit_small c.toNat hsmall)
    · next hsmall =>
      split
      · next hcontrol =>
        rw [String.toList_append]
        exact .unit (isUnit_control c.toNat hcontrol (by omega))
      · next hcontrol =>
        rw [Char.toString, String.toList_singleton]
        exact .plain hquote hescape (by omega)

theorem inside_escaped (cs : List Char) : Inside (String.join (cs.map escape)).toList cs := by
  induction cs with
  | nil => exact .nil
  | cons c cs ih =>
    rw [List.map_cons, String.join_cons, String.toList_append]
    exact .cons (escape_writes c) ih

theorem quote_quoted (content : String) : Quoted (quote content).toList content := by
  have htext : (quote content).toList = '"' :: ((String.join (content.toList.map escape)).toList ++ ['"']) := by simp [quote]
  rw [htext]
  exact .quotes (inside_escaped content.toList)

/-- The characters of a text in which nothing is escaped. -/
theorem inside_plain {cs : List Char} (h : ∀ c ∈ cs, c ≠ '"' ∧ c ≠ '\\' ∧ 0x20 ≤ c.toNat) : Inside cs cs := by
  induction cs with
  | nil => exact .nil
  | cons c cs ih =>
    obtain ⟨⟨hquote, hescape, hcontrol⟩, hcs⟩ := List.forall_mem_cons.mp h
    exact .cons (.plain hquote hescape hcontrol) (ih hcs)

end TensorFuzz.Json
