import TensorFuzz.Check.Scan
import TensorFuzz.Text.Digits

/-!
# Cutting texts

`Lexes` relates a text to its tokens without a bound on its length. Tokens in front of a text are cut off by
one lemma for each sort of token; what follows a number or an identifier must not go on with it.
-/

namespace TensorFuzz.Check

theorem isIdentStart_iff {c : Char} : isIdentStart c = true ↔ (c.isUpper = true ∨ c.isLower = true) ∨ c = '_' := by
  show (c.isUpper || c.isLower || c == '_') = true ↔ _
  rw [Bool.or_eq_true, Bool.or_eq_true, beq_iff_eq]

theorem isIdentChar_iff {c : Char} : isIdentChar c = true ↔
    ((c.isUpper = true ∨ c.isLower = true) ∨ c.isDigit = true) ∨ c = '_' := by
  show (c.isUpper || c.isLower || c.isDigit || c == '_') = true ↔ _
  rw [Bool.or_eq_true, Bool.or_eq_true, Bool.or_eq_true, beq_iff_eq]

theorem isIdentChar_of_isIdentStart {c : Char} (h : isIdentStart c = true) : isIdentChar c = true :=
  isIdentChar_iff.mpr ((isIdentStart_iff.mp h).imp_left .inl)

/-- The text is cut into the tokens. -/
inductive Lexes : List Char → List Token → Prop
  | nil {text : List Char} : text.dropWhile Text.isBlank = [] → Lexes text []
  | cons {text rest after : List Char} {c : Char} {token : Token} {ts : List Token} :
      text.dropWhile Text.isBlank = c :: rest → (∀ whole, next whole (c :: rest) = .ok (token, after)) →
      Lexes after ts → Lexes text (token :: ts)

theorem integer_after {digits after rest : List Char} {token : Token}
    (h : next.integer digits after = .ok (token, rest)) : rest = after := by
  unfold next.integer at h
  dsimp only at h
  split at h
  · cases h
    rfl
  · cases h

theorem symbol?_length {text rest : List Char} {symbol : Symbol} (h : symbol? text = some (symbol, rest)) :
    rest.length < text.length := by
  unfold symbol? at h
  split at h <;> cases h <;> simp only [List.length_cons] <;> omega

theorem length_dropWhile_le (p : Char → Bool) (text : List Char) : (text.dropWhile p).length ≤ text.length :=
  (List.dropWhile_suffix p).length_le

/-- A token takes at least one character. -/
theorem next_length {whole : String} {text rest : List Char} {token : Token}
    (h : next whole text = .ok (token, rest)) : rest.length < text.length := by
  match text with
  | [] => cases h
  | c :: text =>
    rw [List.length_cons]
    refine Nat.lt_succ_of_le ?_
    rw [next] at h
    dsimp only at h
    split at h
    · have hdrop := length_dropWhile_le (·.isDigit) text
      split at h
      · next d places hplaces =>
        have hplaces' := length_dropWhile_le (·.isDigit) places
        have hlength := congrArg List.length hplaces
        simp only [List.length_cons] at hlength
        split at h
        · cases h
          omega
        · rw [integer_after h]
          omega
      · rw [integer_after h]
        exact hdrop
    · split at h
      · split at h
        · cases h
        · next after hafter =>
          have hdrop := length_dropWhile_le (· ≠ '"') text
          rw [hafter, List.length_cons] at hdrop
          cases h
          omega
      · split at h
        · cases h
          exact length_dropWhile_le _ text
        · split at h
          · cases h
            exact length_dropWhile_le _ text
          · split at h
            · next hsymbol =>
              cases h
              have hlength := symbol?_length hsymbol
              rw [List.length_cons] at hlength
              omega
            · cases h

theorem scan_of_lexes {whole : String} {text : List Char} {ts : List Token} (h : Lexes text ts)
    (done : List Token) {fuel : Nat} (hfuel : text.length < fuel) :
    scan whole fuel done text = .ok (done.reverse ++ ts) := by
  induction h generalizing fuel done with
  | nil htext =>
    obtain ⟨fuel, rfl⟩ : ∃ n, fuel = n + 1 := ⟨fuel - 1, by omega⟩
    rw [scan, htext, List.append_nil]
  | @cons text rest after c token ts htext hnext _ ih =>
    obtain ⟨fuel, rfl⟩ : ∃ n, fuel = n + 1 := ⟨fuel - 1, by omega⟩
    have hdrop := length_dropWhile_le Text.isBlank text
    have hlength := next_length (hnext whole)
    rw [htext] at hdrop
    rw [scan, htext]
    simp only [hnext]
    rw [ih (token :: done) (by omega), List.reverse_cons, List.append_assoc]
    rfl

theorem tokens_of_lexes {text : String} {ts : List Token} (h : Lexes text.toList ts) : tokens text = .ok ts :=
  scan_of_lexes h [] (Nat.lt_succ_self _)

end TensorFuzz.Check
