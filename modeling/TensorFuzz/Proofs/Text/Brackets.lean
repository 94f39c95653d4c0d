import TensorFuzz.Proofs.Text.Runs

/-!
# Brackets

Brackets nest properly in a text if each one that closes is of the kind of the innermost one that is open. Braces that
are words of their own are told apart from those that touch other characters: of a part of a text this depends on what
stands around it, so whatever holds of a part is stated for all that may stand there.
-/

namespace TensorFuzz.Text

/-! ## Nesting -/

def closer? : Char → Option Char
  | '(' => some ')'
  | '[' => some ']'
  | '\x7b' => some '\x7d'
  | _ => none

def isCloser (c : Char) : Bool := c == ')' || c == ']' || c == '\x7d'

/-- The brackets that are still to close behind the text, innermost first, if `stack` are to close before it; `none` if
another bracket closes than the innermost one. -/
def awaited (stack : List Char) : List Char → Option (List Char)
  | [] => some stack
  | c :: rest =>
    match closer? c with
    | some closer => awaited (closer :: stack) rest
    | none =>
      if isCloser c then
        if stack.head? = some c then awaited stack.tail rest else none
      else awaited stack rest

/-- All brackets in the text nest properly, and all close. -/
def Nested (text : List Char) : Prop := awaited [] text = some []

/-- The text leaves as many brackets open as there were, whatever it stands in. -/
def Neutral (text : List Char) : Prop := ∀ stack rest, awaited stack (text ++ rest) = awaited stack rest

variable {text front rest : List Char} {c : Char}

namespace Neutral

theorem nested (h : Neutral text) : Nested text := by
  have hread := h [] []
  rwa [List.append_nil] at hread

theorem nil : Neutral [] := fun _ _ => rfl

theorem append (hfront : Neutral front) (hrest : Neutral rest) : Neutral (front ++ rest) := fun stack after => by
  rw [List.append_assoc, hfront, hrest]

theorem singleton (hopens : closer? c = none) (hcloses : isCloser c = false) : Neutral [c] := fun stack rest => by
  rw [List.singleton_append, awaited, hopens]
  exact if_neg (by simp [hcloses])

theorem of_forall (h : ∀ c ∈ text, closer? c = none ∧ isCloser c = false) : Neutral text := by
  induction text with
  | nil => exact nil
  | cons c text ih =>
    obtain ⟨hc, htext⟩ := List.forall_mem_cons.mp h
    exact (singleton hc.1 hc.2).append (ih htext)

/-- A text between a bracket and the one that closes it. -/
theorem enclose (h : Neutral text) {opener closer : Char} (hopens : closer? opener = some closer) :
    Neutral (opener :: (text ++ [closer])) := fun stack rest => by
  have hcloser : closer? closer = none ∧ isCloser closer = true := by
    unfold closer? at hopens
    split at hopens <;> cases hopens <;> decide
  rw [List.cons_append, List.append_assoc, awaited, hopens]
  show awaited (closer :: stack) (text ++ ([closer] ++ rest)) = _
  rw [h, List.singleton_append, awaited, hcloser.1]
  dsimp only
  rw [if_pos hcloser.2]
  exact if_pos rfl

end Neutral

/-! ## Lists of openers and closers -/

/-- No beginning of the list has more closers than openers, and the whole list has as many of either. -/
structure Settles {α : Type} [BEq α] (opener closer : α) (xs : List α) : Prop where
  never_below : ∀ front, front <+: xs → front.count closer ≤ front.count opener
  at_end : xs.count closer = xs.count opener

namespace Settles

variable {α : Type} [BEq α] {opener closer : α} {xs ys : List α}

theorem nil : Settles opener closer [] := ⟨fun _ h => (List.prefix_nil.mp h).symm ▸ Nat.le_refl 0, rfl⟩

omit [BEq α] in
theorem cases_of_prefix_append {front : List α} (h : front <+: xs ++ ys) :
    front <+: xs ∨ ∃ between, front = xs ++ between ∧ between <+: ys := by
  rcases List.prefix_or_prefix_of_prefix h (List.prefix_append xs ys) with hfront | ⟨between, rfl⟩
  · exact .inl hfront
  · exact .inr ⟨between, rfl, (List.prefix_append_right_inj xs).mp h⟩

theorem append (hxs : Settles opener closer xs) (hys : Settles opener closer ys) : Settles opener closer (xs ++ ys) := by
  have hend := hxs.at_end
  refine ⟨fun front h => ?_, by rw [List.count_append, List.count_append, hend, hys.at_end]⟩
  rcases cases_of_prefix_append h with hfront | ⟨between, rfl, hbetween⟩
  · exact hxs.never_below front hfront
  · have hbelow := hys.never_below between hbetween
    rw [List.count_append, List.count_append]
    omega

variable [LawfulBEq α]

/-- An opener and its closer around the list. -/
theorem enclose (h : Settles opener closer xs) (hne : opener ≠ closer) :
    Settles opener closer (opener :: (xs ++ [closer])) := by
  have hend := h.at_end
  refine ⟨fun front hfront => ?_, ?_⟩
  · rcases List.prefix_cons_iff.mp hfront with rfl | ⟨between, rfl, hbetween⟩
    · exact Nat.le_refl 0
    · rw [List.count_cons_of_ne hne, List.count_cons_self]
      rcases cases_of_prefix_append hbetween with hbetween | ⟨last, rfl, hlast⟩
      · exact Nat.le_succ_of_le (h.never_below between hbetween)
      · have hlast : last.count closer ≤ [closer].count closer := hlast.count_le closer
        rw [List.count_singleton_self] at hlast
        rw [List.count_append, List.count_append]
        omega
  · simp [List.count_cons_of_ne hne, hend, hne.symm]

/-- Elements other than the opener and the closer do not count. -/
theorem of_filter {p : α → Bool} (hopener : p opener = true) (hcloser : p closer = true)
    (h : Settles opener closer (xs.filter p)) : Settles opener closer xs := by
  have hcount {x : α} (hx : p x = true) (ys : List α) : (ys.filter p).count x = ys.count x := List.count_filter hx
  refine ⟨fun front hfront => ?_, ?_⟩
  · rw [← hcount hopener, ← hcount hcloser]
    exact h.never_below _ (hfront.filter p)
  · rw [← hcount hopener, ← hcount hcloser]
    exact h.at_end

end Settles

/-! ## Braces that are words -/

def isBrace (c : Char) : Bool := c == '\x7b' || c == '\x7d'

/-- The braces of a text that are words. `before` and `after` say whether a blank character, or the end of everything,
is next to the text. -/
def braceWords (before : Bool) : List Char → Bool → List (List Char)
  | [], _ => []
  | c :: rest, after =>
    (if before && isBrace c && (rest.head?.map isBlank).getD after then [[c]] else []) ++
      braceWords (isBlank c) rest after

theorem isBlank_of_isBrace (h : isBrace c = true) : isBlank c = false := by
  rcases Bool.or_eq_true_iff.mp h with h | h <;> (rw [beq_iff_eq.mp h]; decide)

theorem braceWords_append (before after : Bool) : braceWords before (front ++ rest) after =
    braceWords before front ((rest.head?.map isBlank).getD after) ++
      braceWords ((front.getLast?.map isBlank).getD before) rest after := by
  induction front generalizing before with
  | nil => rfl
  | cons c front ih =>
    rw [List.cons_append, braceWords, braceWords, ih, List.append_assoc]
    cases front with
    | nil => rfl
    | cons d front => rw [List.getLast?_cons_cons]; rfl

/-- The word is a single brace. -/
def isBraceWord (word : List Char) : Bool := word == ['\x7b'] || word == ['\x7d']

theorem isBraceWord_singleton (c : Char) : isBraceWord [c] = isBrace c := by
  simp [isBraceWord, isBrace, Bool.beq_eq_decide_eq]

theorem isBraceWord_of_length (c d : Char) (run : List Char) : isBraceWord (c :: d :: run) = false := by
  simp [isBraceWord]

/-- The brace words among the runs of a text after a run that was begun: a run of one character is a brace word if it ends
here, and a longer run never is. -/
theorem filter_runs (text : List Char) : (runsAfter (!isBlank ·) [] text).filter isBraceWord = braceWords true text true ∧
    (∀ c, isBlank c = false → (runsAfter (!isBlank ·) [c] text).filter isBraceWord = braceWords true (c :: text) true) ∧
    ∀ c d run, (runsAfter (!isBlank ·) (c :: d :: run) text).filter isBraceWord = braceWords false text true := by
  induction text with
  | nil =>
    refine ⟨rfl, fun c hc => ?_, fun c d run => ?_⟩
    · simp [runsAfter, ended, braceWords, List.filter_cons, isBraceWord_singleton]
    · simp [runsAfter, ended, braceWords, isBraceWord_of_length]
  | cons e text ih =>
    obtain ⟨ih, ih₁, ih₂⟩ := ih
    cases he : isBlank e with
    | true =>
      have hbrace : isBrace e = false := Bool.eq_false_iff.mpr fun h => Bool.noConfusion (he ▸ isBlank_of_isBrace h)
      have hruns (run : List Char) :
          runsAfter (!isBlank ·) run (e :: text) = ended run ++ runsAfter (!isBlank ·) [] text := by
        rw [runsAfter, if_neg (by simp [he])]
      have hrest (before : Bool) : braceWords before (e :: text) true = braceWords true text true := by
        rw [braceWords, he, hbrace, Bool.and_false, Bool.false_and]
        rfl
      refine ⟨?_, fun c hc => ?_, fun c d run => ?_⟩
      · rw [hruns, hrest, List.filter_append, ih]
        rfl
      · rw [hruns, List.filter_append, ih, braceWords, hrest]
        simp [ended, List.filter_cons, isBraceWord_singleton, he]
      · rw [hruns, hrest, List.filter_append, ih]
        simp [ended, isBraceWord_of_length]
    | false =>
      have hruns (run : List Char) :
          runsAfter (!isBlank ·) run (e :: text) = runsAfter (!isBlank ·) (run ++ [e]) text := by
        rw [runsAfter, if_pos (by simp [he])]
      have hrest : braceWords false (e :: text) true = braceWords false text true := by
        rw [braceWords, he]
        rfl
      refine ⟨?_, fun c hc => ?_, fun c d run => ?_⟩
      · exact (congrArg _ (hruns [])).trans (ih₁ e he)
      · rw [hruns, braceWords, hc, hrest]
        simp [ih₂, he]
      · rw [hruns, hrest]
        exact ih₂ c d (run ++ [e])

theorem filter_words (text : List Char) : (words text).filter isBraceWord = braceWords true text true := by
  rw [words_eq_runs]
  exact (filter_runs text).1

/-- The text neither begins nor ends with a blank character. -/
structure Edged (text : List Char) : Prop where
  ne : text ≠ []
  stops : Stops isBlank text
  closes : Closes isBlank text

theorem Edged.head? (h : Edged text) (rest : List Char) (after : Bool) :
    ((text ++ rest).head?.map isBlank).getD after = false := by
  obtain ⟨c, text, rfl⟩ := List.exists_cons_of_ne_nil h.ne
  exact h.stops c rfl

theorem Edged.getLast? (h : Edged text) (before : Bool) : (text.getLast?.map isBlank).getD before = false := by
  have hlast := List.getLast?_eq_some_getLast h.ne
  rw [hlast]
  exact h.closes _ hlast

/-- Braces that touch what they enclose are no words. -/
theorem braceWords_glued (h : Edged text) (before after : Bool) :
    braceWords before ('\x7b' :: (text ++ ['\x7d'])) after = braceWords false text false := by
  rw [braceWords, h.head?, Bool.and_false, braceWords_append, h.getLast?]
  exact List.append_nil _

/-- Braces that touch each other are no words either. -/
theorem braceWords_window (hfront : Edged front) (hrest : Edged rest) (before after : Bool) :
    braceWords before ('\x7b' :: (front ++ ' ' :: '\x7d' :: '\x7b' :: ' ' :: (rest ++ ['\x7d']))) after =
      braceWords false front true ++ braceWords true rest false := by
  rw [braceWords, hfront.head?, Bool.and_false, braceWords_append, hfront.getLast?]
  show braceWords false front true ++ braceWords true (rest ++ ['\x7d']) after = _
  rw [braceWords_append, hrest.getLast?]
  exact congrArg _ (List.append_nil _)

theorem braceWords_space (before after : Bool) (rest : List Char) :
    braceWords before (' ' :: rest) after = braceWords true rest after := by
  have hspace : (before && isBrace ' ') = false := Bool.and_false before
  rw [braceWords, hspace, Bool.false_and]
  rfl

theorem braceWords_block (text : List Char) (before after : Bool) :
    braceWords before (' ' :: '\x7b' :: ' ' :: (text ++ [' ', '\x7d', ' '])) after =
      ['\x7b'] :: (braceWords true text true ++ [['\x7d']]) := by
  rw [braceWords_space]
  show ['\x7b'] :: braceWords true (text ++ [' ', '\x7d', ' ']) after = _
  rw [braceWords_append, braceWords_space]
  rfl

/-- The braces that are words settle, whatever is next to the text. -/
def BracesSettle (text : List Char) : Prop :=
  ∀ before after, Settles ['\x7b'] ['\x7d'] (braceWords before text after)

namespace BracesSettle

theorem settles_words (h : BracesSettle text) : Settles ['\x7b'] ['\x7d'] (words text) :=
  .of_filter (p := isBraceWord) (by decide) (by decide) (filter_words text ▸ h true true)

theorem append (hfront : BracesSettle front) (hrest : BracesSettle rest) : BracesSettle (front ++ rest) :=
  fun before after => by
    rw [braceWords_append]
    exact (hfront _ _).append (hrest _ _)

theorem of_forall (h : ∀ c ∈ text, isBrace c = false) : BracesSettle text := fun before after => by
  have hnone : braceWords before text after = [] := by
    induction text generalizing before with
    | nil => rfl
    | cons c text ih =>
      obtain ⟨hc, htext⟩ := List.forall_mem_cons.mp h
      rw [braceWords, hc, ih htext, Bool.and_false, Bool.false_and]
      rfl
  rw [hnone]
  exact .nil

theorem glued (h : BracesSettle text) (hedged : Edged text) : BracesSettle ('\x7b' :: (text ++ ['\x7d'])) :=
  fun before after => by
    rw [braceWords_glued hedged]
    exact h false false

theorem window (hfront : BracesSettle front) (hrest : BracesSettle rest) (hedged : Edged front) (hedged' : Edged rest) :
    BracesSettle ('\x7b' :: (front ++ ' ' :: '\x7d' :: '\x7b' :: ' ' :: (rest ++ ['\x7d']))) := fun before after => by
  rw [braceWords_window hedged hedged']
  exact (hfront false true).append (hrest true false)

theorem block (h : BracesSettle text) : BracesSettle (' ' :: '\x7b' :: ' ' :: (text ++ [' ', '\x7d', ' '])) :=
  fun before after => by
    rw [braceWords_block]
    exact (h true true).enclose (by decide)

end BracesSettle

end TensorFuzz.Text
