import TensorFuzz.Proofs.Check.Constants

/-!
# Cutting constant texts

`cut` gives the numbers and marks of a constant text, without a bound on the numbers. The evaluator of constants and
the checker each have their own way to cut a text; both cut it into these tokens, as long as words hold the numbers.
-/

namespace TensorFuzz.Constant

open Check (Lexes)

/-- The symbol that a mark is inside an expression. -/
def markSymbol? : Char → Option Check.Symbol
  | '+' => some .plus
  | '-' => some .minus
  | '*' => some .star
  | '/' => some .slash
  | '^' => some .caret
  | '(' => some .openParen
  | ')' => some .closeParen
  | _ => none

/-- A digit, a mark or a blank of ASCII text. -/
def IsConstantChar (c : Char) : Prop := c.isDigit = true ∨ c ∈ marks ∨ Text.isAsciiBlank c = true

instance (c : Char) : Decidable (IsConstantChar c) := inferInstanceAs (Decidable (_ ∨ _ ∨ _))

/-- The numbers and marks of a text, after the digits of a number whose value so far is `pending`. -/
def cut (pending : Option Nat) : List Char → List Check.Token
  | [] => pending.toList.map .int
  | c :: rest =>
    if c.isDigit then cut (some (pending.getD 0 * 10 + (c.toNat - '0'.toNat))) rest
    else pending.toList.map .int ++ ((markSymbol? c).toList.map .symbol ++ cut none rest)

/-- A number or a mark. -/
def isConstantToken : Check.Token → Bool
  | .int _ => true
  | .symbol s => s ∈ [.plus, .minus, .star, .slash, .caret, .openParen, .closeParen]
  | _ => false

/-- The token of the evaluator for a number or mark of an expression. -/
def ofCheckToken : Check.Token → Token
  | .int n => .number n
  | .symbol s => .symbol (s.text.toList.headD ' ')
  | _ => .symbol ' '

/-- The token of an expression for a token of the evaluator. -/
def Token.toCheck : Token → Check.Token
  | .number value => .int value.toNat
  | .symbol mark => .symbol ((markSymbol? mark).getD .bang)

theorem map_checkTokens (c : ConstExpr) : c.checkTokens.map ofCheckToken = c.tokens := by
  induction c with
  | literal n => rfl
  | sum a b iha ihb | difference a b iha ihb | product a b iha ihb | quotient a b iha ihb | power a b iha ihb =>
    rw [ConstExpr.checkTokens, List.map_append, iha, List.map_cons, ihb]
    rfl
  | negation a ih =>
    rw [ConstExpr.checkTokens, List.map_cons, ih]
    rfl
  | group a ih =>
    rw [ConstExpr.checkTokens, List.map_cons, List.map_append, ih]
    rfl

theorem toCheck_ofCheckToken {t : Check.Token} (ht : isConstantToken t = true) : (ofCheckToken t).toCheck = t := by
  cases t with
  | int n => rfl
  | symbol s =>
    revert ht
    cases s <;> decide
  | float | string | ident | query => cases ht

/-! ## Characters -/

theorem exists_markSymbol {c : Char} (hc : c ∈ marks) :
    ∃ s, markSymbol? c = some s ∧ isConstantToken (.symbol s) = true ∧ ofCheckToken (.symbol s) = .symbol c := by
  simp only [marks, List.mem_cons, List.not_mem_nil, or_false] at hc
  rcases hc with rfl | rfl | rfl | rfl | rfl | rfl | rfl <;> exact ⟨_, rfl, by decide, by decide⟩

theorem markSymbol?_of_isAsciiBlank {c : Char} (hc : Text.isAsciiBlank c = true) : markSymbol? c = none := by
  simp only [Text.isAsciiBlank, Bool.or_eq_true, beq_iff_eq] at hc
  rcases hc with (((rfl | rfl) | rfl) | rfl) | rfl <;> decide

/-- A number ends in front of a mark or a blank. -/
theorem bounded_of_isConstantChar {c : Char} (hc : c ∈ marks ∨ Text.isAsciiBlank c = true) (rest : List Char) :
    Check.Bounded (c :: rest) := by
  refine Check.bounded_cons ?_ rest
  simp only [marks, List.mem_cons, List.not_mem_nil, or_false, Text.isAsciiBlank, Bool.or_eq_true, beq_iff_eq] at hc
  rcases hc with (rfl | rfl | rfl | rfl | rfl | rfl | rfl) | (((rfl | rfl) | rfl) | rfl) | rfl <;> decide

/-! ## Tokens -/

theorem isConstantToken_of_mem_cut {text : List Char} (hchars : ∀ c ∈ text, IsConstantChar c) {pending : Option Nat} :
    ∀ t ∈ cut pending text, isConstantToken t = true := by
  have hpending (pending : Option Nat) : ∀ t ∈ pending.toList.map Check.Token.int, isConstantToken t = true := by
    intro t ht
    obtain ⟨n, -, rfl⟩ := List.mem_map.mp ht
    rfl
  induction text generalizing pending with
  | nil => exact hpending pending
  | cons c rest ih =>
    obtain ⟨hc, hrest⟩ := List.forall_mem_cons.mp hchars
    rw [cut]
    split
    · exact ih hrest
    · next hdigit =>
      refine List.forall_mem_append.mpr ⟨hpending pending, List.forall_mem_append.mpr ⟨?_, ih hrest⟩⟩
      rcases hc.resolve_left hdigit with hmark | hblank
      · obtain ⟨s, hs, hconstant, -⟩ := exists_markSymbol hmark
        simpa [hs] using hconstant
      · simp [markSymbol?_of_isAsciiBlank hblank]

/-- Every text that the evaluator cuts is a constant text. -/
theorem isConstantChar_of_scan {text : List Char} {pending : Option Nat} {ts : List Token}
    (h : scan pending text = .ok ts) : ∀ c ∈ text, IsConstantChar c := by
  induction text generalizing pending ts with
  | nil => exact List.forall_mem_nil _
  | cons c rest ih =>
    rw [scan] at h
    refine List.forall_mem_cons.mpr ?_
    split at h
    · next hdigit =>
      obtain ⟨n, -, hlater⟩ := exists_of_bind_ok h
      exact ⟨.inl hdigit, ih hlater⟩
    · split at h
      · next hblank =>
        obtain ⟨later, hlater, -⟩ := exists_of_bind_ok h
        exact ⟨.inr (.inr hblank), ih hlater⟩
      · split at h
        · next hmark =>
          obtain ⟨later, hlater, -⟩ := exists_of_bind_ok h
          exact ⟨.inr (.inl hmark), ih hlater⟩
        · cases h

/-- The number that is being read only grows. -/
theorem exists_int_mem_cut (n : Nat) (text : List Char) : ∃ m, n ≤ m ∧ Check.Token.int m ∈ cut (some n) text := by
  induction text generalizing n with
  | nil => exact ⟨n, Nat.le_refl n, List.mem_singleton_self _⟩
  | cons c rest ih =>
    rw [cut]
    split
    · obtain ⟨m, hm, hmem⟩ := ih ((some n).getD 0 * 10 + (c.toNat - '0'.toNat))
      rw [Option.getD_some] at hm
      exact ⟨m, by omega, hmem⟩
    · exact ⟨n, Nat.le_refl n, List.mem_append_left _ (List.mem_singleton_self _)⟩

/-- The evaluator cuts a constant text into its numbers and marks, if words hold the numbers. -/
theorem scan_eq_cut {text : List Char} (hchars : ∀ c ∈ text, IsConstantChar c) (pending : Option Nat)
    (hfits : ∀ n, Check.Token.int n ∈ cut pending text → Fits128 n) :
    scan pending text = .ok ((cut pending text).map ofCheckToken) := by
  have hpending (pending : Option Nat) :
      pendingNumber pending = (pending.toList.map Check.Token.int).map ofCheckToken := by
    cases pending <;> rfl
  induction text generalizing pending with
  | nil => exact congrArg Except.ok (hpending pending)
  | cons c rest ih =>
    obtain ⟨hc, hrest⟩ := List.forall_mem_cons.mp hchars
    rw [cut] at hfits
    rw [scan, cut]
    by_cases hdigit : c.isDigit = true
    · rw [if_pos hdigit] at hfits
      have hnumber : Fits128 (pending.getD 0 * 10 + (c.toNat - '0'.toNat) : Nat) := by
        obtain ⟨m, hm, hmem⟩ := exists_int_mem_cut (pending.getD 0 * 10 + (c.toNat - '0'.toNat)) rest
        have hfit := hfits m hmem
        unfold Fits128 at *
        omega
      rw [if_pos hdigit, if_pos hdigit, appendDigit_of_fits hnumber, ok_bind, ih hrest _ hfits]
    · rw [if_neg hdigit] at hfits
      have hlater (n : Nat) (hn : Check.Token.int n ∈ cut none rest) : Fits128 n :=
        hfits n (List.mem_append_right _ (List.mem_append_right _ hn))
      rw [if_neg hdigit, if_neg hdigit, List.map_append, List.map_append, ← hpending, ih hrest none hlater]
      by_cases hblank : Text.isAsciiBlank c = true
      · rw [if_pos hblank, markSymbol?_of_isAsciiBlank hblank]
        rfl
      · have hmark : c ∈ marks := (hc.resolve_left hdigit).resolve_right hblank
        obtain ⟨s, hs, -, hof⟩ := exists_markSymbol hmark
        rw [if_neg hblank, if_pos hmark, hs]
        show Except.ok (pendingNumber pending ++ .symbol c :: _) = _
        rw [← hof]
        rfl

theorem lexes_markSymbol {c : Char} {s : Check.Symbol} (hs : markSymbol? c = some s) {rest : List Char}
    {us : List Check.Token} (h : Lexes rest us) : Lexes (c :: rest) (.symbol s :: us) := by
  unfold markSymbol? at hs
  split at hs <;> cases hs <;> exact .cons rfl (fun _ => rfl) h

/-- The value of the digits read so far, if there are any. -/
def valueSoFar : List Char → Option Nat
  | [] => none
  | d :: digits => some (Check.digitsValue (d :: digits))

theorem valueSoFar_concat (digits : List Char) (d : Char) :
    valueSoFar (digits ++ [d]) = some ((valueSoFar digits).getD 0 * 10 + (d.toNat - '0'.toNat)) := by
  cases digits with
  | nil => rfl
  | cons e digits =>
    show some (Check.digitsValue ((e :: digits) ++ [d])) = _
    rw [Check.digitsValue, List.foldl_append]
    rfl

theorem lexes_valueSoFar {digits rest : List Char} {us : List Check.Token} (hdigits : ∀ c ∈ digits, c.isDigit = true)
    (hfits : ∀ n ∈ valueSoFar digits, Fits128 n) (hrest : Check.Bounded rest) (h : Lexes rest us) :
    Lexes (digits ++ rest) ((valueSoFar digits).toList.map .int ++ us) := by
  cases digits with
  | nil => exact h
  | cons d digits => exact Check.lexes_digits hdigits (hfits _ rfl) hrest h

/-- The checker cuts a constant text into its numbers and marks, if words hold the numbers. The induction is on what
is left behind the digits read so far. -/
theorem lexes_cut (digits : List Char) {text : List Char} (hdigits : ∀ c ∈ digits, c.isDigit = true)
    (hchars : ∀ c ∈ text, IsConstantChar c)
    (hfits : ∀ n, Check.Token.int n ∈ cut (valueSoFar digits) text → Fits128 n) :
    Lexes (digits ++ text) (cut (valueSoFar digits) text) := by
  induction text generalizing digits with
  | nil =>
    have hend := lexes_valueSoFar hdigits (fun n hn => hfits n (by simpa [cut] using hn)) Check.bounded_nil (.nil rfl)
    rwa [List.append_nil (_ : List Check.Token)] at hend
  | cons c rest ih =>
    obtain ⟨hc, hrest⟩ := List.forall_mem_cons.mp hchars
    rw [cut] at hfits ⊢
    by_cases hdigit : c.isDigit = true
    · rw [if_pos hdigit, ← valueSoFar_concat] at hfits ⊢
      have hdigits' : ∀ d ∈ digits ++ [c], d.isDigit = true :=
        List.forall_mem_append.mpr ⟨hdigits, List.forall_mem_singleton.mpr hdigit⟩
      have hlonger := ih (digits ++ [c]) hdigits' hrest hfits
      rwa [List.append_assoc] at hlonger
    · rw [if_neg hdigit] at hfits ⊢
      have hc := hc.resolve_left hdigit
      have hlater : Lexes rest (cut none rest) :=
        ih [] nofun hrest fun n hn => hfits n (List.mem_append_right _ (List.mem_append_right _ hn))
      have hmark : Lexes (c :: rest) ((markSymbol? c).toList.map .symbol ++ cut none rest) := by
        rcases hc with hmark | hblank
        · obtain ⟨s, hs, -, -⟩ := exists_markSymbol hmark
          rw [hs]
          exact lexes_markSymbol hs hlater
        · rw [markSymbol?_of_isAsciiBlank hblank]
          exact Check.lexes_blank (Text.isBlank_of_isAsciiBlank hblank) hlater
      exact lexes_valueSoFar hdigits (fun n hn => hfits n (by simp [Option.mem_def.mp hn]))
        (bounded_of_isConstantChar hc rest) hmark

/-- The checker and the evaluator cut a constant text into the same numbers and marks. -/
theorem tokens_eq_cut {text : String} (hchars : ∀ c ∈ text.toList, IsConstantChar c)
    (hfits : ∀ n, Check.Token.int n ∈ cut none text.toList → Fits128 n) :
    Check.tokens text = .ok (cut none text.toList) ∧
      tokens text.toList = .ok ((cut none text.toList).map ofCheckToken) :=
  ⟨Check.tokens_of_lexes (lexes_cut [] nofun hchars hfits), scan_eq_cut hchars none hfits⟩

end TensorFuzz.Constant
