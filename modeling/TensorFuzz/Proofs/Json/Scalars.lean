import TensorFuzz.Proofs.Json.Spelled
import TensorFuzz.Proofs.Random.Draws
import TensorFuzz.Proofs.Text.Takes
import TensorFuzz.Text.Digits

/-!
# Reading strings and numbers

A string is read to the characters that its text stands for, however they are written, and an integer to its value. Each
reader is followed on the texts of what it reads, with whatever text may come behind.
-/

namespace TensorFuzz.Json

variable {gap text rest cs digits done : List Char} {c : Char} {n fuel : Nat}

/-! ## Gaps and words -/

theorem demand_run (hgap : IsGap gap) (hc : isBlank c = false) (rest : List Char) :
    demand (gap ++ c :: rest) = .ok (c, c :: rest) := by
  have hdrop : (gap ++ c :: rest).dropWhile isBlank = c :: rest := Text.dropWhile_append_stop hgap (by rintro _ ⟨⟩; exact hc)
  have hpeek : peek (gap ++ c :: rest) = .ok (some c, c :: rest) := by
    show Except.ok (((gap ++ c :: rest).dropWhile isBlank).head?, (gap ++ c :: rest).dropWhile isBlank) = _
    rw [hdrop]
    rfl
  rw [demand, bind_of_ok hpeek]
  rfl

theorem get_bind {α : Type} (f : List Char → Reader α) (text : List Char) :
    ((get : Reader (List Char)) >>= f) text = f text text :=
  rfl

theorem isGap_nil : IsGap [] := List.forall_mem_nil _

theorem word_run (letters rest : List Char) : word letters (letters ++ rest) = .ok ((), rest) := by
  induction letters with
  | nil => rfl
  | cons letter letters ih =>
    show (if letter = letter then _ else _ : Reader Unit) (letter :: (letters ++ rest)) = _
    rw [if_pos rfl]
    exact ih

/-! ## Strings -/

theorem fourDigits_run (h : IsUnit digits n) (rest : List Char) : fourDigits (digits ++ rest) = .ok (n, rest) := by
  have htake : (digits ++ rest).take 4 = digits := by rw [← h.length, List.take_left']; rfl
  have hdrop : (digits ++ rest).drop 4 = rest := by rw [← h.length, List.drop_left']; rfl
  show (if ((digits ++ rest).take 4).length = 4 ∧ ((digits ++ rest).take 4).all Text.isHexDigit then _ else _ : Reader Nat)
    (digits ++ rest) = _
  rw [htake, if_pos ⟨h.length, List.all_eq_true.mpr h.hexadecimal⟩, hdrop, h.value]
  rfl

theorem escaped_short {letter : Char} (h : (letter, c) ∈ shortEscapes) (rest : List Char) :
    escaped (letter :: rest) = .ok (c, rest) := by
  simp only [shortEscapes, List.mem_cons, Prod.mk.injEq, List.not_mem_nil, or_false] at h
  rcases h with ⟨rfl, rfl⟩ | ⟨rfl, rfl⟩ | ⟨rfl, rfl⟩ | ⟨rfl, rfl⟩ | ⟨rfl, rfl⟩ | ⟨rfl, rfl⟩ | ⟨rfl, rfl⟩ | ⟨rfl, rfl⟩ <;> rfl

/-- The character of a code, or of a pair that begins with it. -/
def coded (code : Nat) : Reader Char :=
  if 0xdc00 ≤ code ∧ code ≤ 0xdfff then throw .malformed
  else if 0xd800 ≤ code ∧ code ≤ 0xdbff then surrogatePair code
  else return Char.ofNat code

theorem escaped_unit (h : IsUnit digits n) (rest : List Char) : escaped ('u' :: (digits ++ rest)) = coded n rest := by
  have hset : escaped ('u' :: (digits ++ rest)) = (fourDigits >>= coded) (digits ++ rest) := rfl
  rw [hset, bind_of_ok (fourDigits_run h rest)]

theorem surrogatePair_run {low : Nat} (hdigits : IsUnit digits low) (h : 0xdc00 ≤ low ∧ low ≤ 0xdfff) (high : Nat)
    (rest : List Char) : surrogatePair high ('\\' :: 'u' :: (digits ++ rest)) =
      .ok (Char.ofNat ((high - 0xd800) * 0x400 + (low - 0xdc00) + 0x10000), rest) := by
  have hword : word ['\\', 'u'] ('\\' :: 'u' :: (digits ++ rest)) = .ok ((), digits ++ rest) := word_run ['\\', 'u'] _
  rw [surrogatePair, bind_of_ok hword, bind_of_ok (fourDigits_run hdigits rest), if_pos h]
  rfl

/-- Behind the backslash of an escape, its character is read. -/
theorem escaped_run (h : Writes ('\\' :: text) c) (rest : List Char) : escaped (text ++ rest) = .ok (c, rest) := by
  have hvalid : c.toNat < 0xd800 ∨ 0xdfff < c.toNat ∧ c.toNat < 0x110000 := c.valid
  cases h with
  | plain _ hne _ => exact absurd rfl hne
  | short hletter => exact escaped_short hletter rest
  | unit hdigits =>
    rw [List.cons_append, escaped_unit hdigits, coded, if_neg (by omega), if_neg (by omega), Char.ofNat_toNat]
    rfl
  | @pair high low _ hlarge hhigh hlow =>
    have hhalf : (c.toNat - 0x10000) / 0x400 < 0x400 := by omega
    have hcode : (0xd800 + (c.toNat - 0x10000) / 0x400 - 0xd800) * 0x400 +
        (0xdc00 + (c.toNat - 0x10000) % 0x400 - 0xdc00) + 0x10000 = c.toNat := by omega
    rw [List.cons_append, List.append_assoc, escaped_unit hhigh, coded, if_neg (by omega), if_pos (by omega), List.cons_append,
      List.cons_append, surrogatePair_run hlow (by omega), hcode, Char.ofNat_toNat]

theorem stringTail_plain (hquote : c ≠ '"') (hescape : c ≠ '\\') (hcontrol : ¬ c.toNat < 0x20) (fuel : Nat)
    (done rest : List Char) : stringTail (fuel + 1) done (c :: rest) = stringTail fuel (c :: done) rest := by
  rw [stringTail, get_bind]
  simp only [if_neg hcontrol]
  rfl

theorem stringTail_escape (h : Writes ('\\' :: text) c) (fuel : Nat) (done rest : List Char) :
    stringTail (fuel + 1) done ('\\' :: (text ++ rest)) = stringTail fuel (c :: done) rest := by
  have hset : stringTail (fuel + 1) done ('\\' :: (text ++ rest)) =
      (escaped >>= fun c => stringTail fuel (c :: done)) (text ++ rest) := rfl
  rw [hset, bind_of_ok (escaped_run h rest)]

/-- A character of a string is itself, or an escape that begins with a backslash. -/
theorem Writes.cases_head (h : Writes text c) :
    text = [c] ∧ c ≠ '"' ∧ c ≠ '\\' ∧ ¬ c.toNat < 0x20 ∨ ∃ tail, text = '\\' :: tail := by
  cases h with
  | plain hquote hescape hcontrol => exact .inl ⟨rfl, hquote, hescape, by omega⟩
  | short _ | unit _ | pair _ _ _ => exact .inr ⟨_, rfl⟩

theorem stringTail_run (h : Inside text cs) (hfuel : text.length < fuel) (done rest : List Char) :
    stringTail fuel done (text ++ '"' :: rest) = .ok (String.ofList (done.reverse ++ cs), rest) := by
  induction h generalizing fuel done with
  | nil =>
    obtain ⟨fuel, rfl⟩ : ∃ n, fuel = n + 1 := ⟨fuel - 1, by omega⟩
    rw [List.append_nil]
    rfl
  | @cons front text cs c hfront _ ih =>
    obtain ⟨fuel, rfl⟩ : ∃ n, fuel = n + 1 := ⟨fuel - 1, by omega⟩
    have hdone : (c :: done).reverse ++ cs = done.reverse ++ c :: cs := by simp
    rw [← hdone]
    rcases hfront.cases_head with ⟨rfl, hquote, hescape, hcontrol⟩ | ⟨tail, rfl⟩
    · rw [List.length_append, List.length_singleton] at hfuel
      rw [List.append_assoc, List.singleton_append, stringTail_plain hquote hescape hcontrol]
      exact ih (by omega) _
    · rw [List.length_append, List.length_cons] at hfuel
      rw [List.append_assoc, List.cons_append, stringTail_escape hfront]
      exact ih (by omega) _

theorem quoted_run {content : String} (h : Quoted text content) (rest : List Char) :
    quoted (text ++ rest) = .ok (content, rest) := by
  cases h with | @quotes text _ h => ?_
  have hskip : quoted (('"' :: (text ++ ['"'])) ++ rest) =
      stringTail ((text ++ ['"'] ++ rest).length + 1) [] (text ++ ['"'] ++ rest) := rfl
  rw [hskip, List.append_assoc, List.singleton_append, stringTail_run h (by simp only [List.length_append]; omega)]
  simp

/-! ### Skipped strings -/

theorem skipStringTail_plain (hquote : c ≠ '"') (hescape : c ≠ '\\') (hcontrol : ¬ c.toNat < 0x20) (fuel : Nat)
    (rest : List Char) : skipStringTail (fuel + 1) (c :: rest) = skipStringTail fuel rest := by
  rw [skipStringTail, get_bind]
  generalize htext : c :: rest = text
  split
  · cases htext
  · exact absurd (List.cons.inj htext).1 hquote
  · exact absurd (List.cons.inj htext).1 hescape
  · exact absurd (List.cons.inj htext).1 hescape
  · exact absurd (List.cons.inj htext).1 hescape
  · obtain ⟨rfl, rfl⟩ := List.cons.inj htext
    simp only [if_neg hcontrol]
    rfl

theorem skipStringTail_short {letter : Char} (h : (letter, c) ∈ shortEscapes) (fuel : Nat) (rest : List Char) :
    skipStringTail (fuel + 1) ('\\' :: letter :: rest) = skipStringTail fuel rest := by
  simp only [shortEscapes, List.mem_cons, Prod.mk.injEq, List.not_mem_nil, or_false] at h
  rcases h with ⟨rfl, rfl⟩ | ⟨rfl, rfl⟩ | ⟨rfl, rfl⟩ | ⟨rfl, rfl⟩ | ⟨rfl, rfl⟩ | ⟨rfl, rfl⟩ | ⟨rfl, rfl⟩ | ⟨rfl, rfl⟩ <;> rfl

theorem skipStringTail_unit (h : IsUnit digits n) (fuel : Nat) (rest : List Char) :
    skipStringTail (fuel + 1) ('\\' :: 'u' :: (digits ++ rest)) = skipStringTail fuel rest := by
  have hset : skipStringTail (fuel + 1) ('\\' :: 'u' :: (digits ++ rest)) =
      (fourDigits >>= fun _ => skipStringTail fuel) (digits ++ rest) := rfl
  rw [hset, bind_of_ok (fourDigits_run h rest)]

theorem skipStringTail_run (h : Inside text cs) (hfuel : text.length < fuel) (rest : List Char) :
    skipStringTail fuel (text ++ '"' :: rest) = .ok ((), rest) := by
  induction h generalizing fuel with
  | nil =>
    obtain ⟨fuel, rfl⟩ : ∃ n, fuel = n + 1 := ⟨fuel - 1, by omega⟩
    rfl
  | @cons front text cs c hfront _ ih =>
    rw [List.length_append] at hfuel
    have hpositive : 1 ≤ front.length := by cases hfront <;> simp
    obtain ⟨fuel, rfl⟩ : ∃ n, fuel = n + 2 := ⟨fuel - 2, by omega⟩
    rw [List.append_assoc]
    cases hfront with
    | plain hquote hescape hcontrol =>
      rw [List.length_singleton] at hfuel
      rw [List.singleton_append, skipStringTail_plain hquote hescape (by omega)]
      exact ih (by omega)
    | short hletter =>
      rw [List.length_cons] at hfuel
      rw [List.cons_append, List.singleton_append, skipStringTail_short hletter]
      exact ih (by omega)
    | unit hdigits =>
      rw [List.length_cons] at hfuel
      rw [List.cons_append, List.cons_append, skipStringTail_unit hdigits]
      exact ih (by omega)
    | @pair high low _ _ hhigh hlow =>
      simp only [List.length_cons, List.length_append] at hfuel
      simp only [List.cons_append, List.append_assoc]
      rw [skipStringTail_unit hhigh, skipStringTail_unit hlow]
      exact ih (by omega)

theorem skipQuoted_run {content : String} (h : Quoted text content) (rest : List Char) :
    skipQuoted (text ++ rest) = .ok ((), rest) := by
  cases h with | @quotes text _ h => ?_
  have hskip : skipQuoted (('"' :: (text ++ ['"'])) ++ rest) =
      skipStringTail ((text ++ ['"'] ++ rest).length + 1) (text ++ ['"'] ++ rest) := rfl
  rw [hskip, List.append_assoc, List.singleton_append, skipStringTail_run h (by simp only [List.length_append]; omega)]

/-! ## Integers -/

/-- A number of more than one digit does not begin with a zero. -/
theorem tail_of_zero {ds : List Char} (h : (toString n).toList = '0' :: ds) : ds = [] := by
  change n.repr.toList = '0' :: ds at h
  rw [Nat.toList_repr] at h
  induction n using Nat.strongRecOn generalizing ds with
  | ind n ih =>
    by_cases hsmall : n < 10
    · rw [Nat.toDigits_of_lt_base hsmall] at h
      exact (List.cons.inj h).2.symm
    · rw [Nat.toDigits_of_base_le (by decide) (by omega)] at h
      obtain ⟨d, front, hfront⟩ := List.exists_cons_of_ne_nil (Nat.toDigits_ne_nil (n := n / 10) (b := 10))
      rw [hfront, List.cons_append] at h
      obtain ⟨rfl, -⟩ := List.cons.inj h
      have hnil := ih (n / 10) (by omega) hfront
      subst hnil
      have hvalue := Nat.ofDigitChars_ten_toDigits (n := n / 10)
      rw [hfront] at hvalue
      have hzero : 0 = n / 10 := hvalue
      omega

/-- What may come behind a value: nothing, a blank character, a comma or a closing bracket. -/
def Ended (rest : List Char) : Prop := ∀ c ∈ rest.head?, isBlank c = true ∨ c ∈ [',', ']', '\x7d']

theorem Ended.stops (h : Ended rest) {p : Char → Bool} (hp : ∀ c ∈ [' ', '\n', '\t', '\r', ',', ']', '\x7d'], p c = false) :
    Text.Stops p rest := by
  intro c hc
  refine hp c ?_
  rcases h c hc with hblank | hmark
  · simp only [isBlank, Bool.or_eq_true, beq_iff_eq] at hblank
    grind
  · grind

theorem someDigits_run (hne : digits ≠ []) (hdigits : ∀ d ∈ digits, d.isDigit = true) (hrest : Text.Stops (·.isDigit) rest) :
    someDigits (digits ++ rest) = .ok (digits, rest) := by
  obtain ⟨d, ds, rfl⟩ := List.exists_cons_of_ne_nil hne
  obtain ⟨hd, hds⟩ := List.forall_mem_cons.mp hdigits
  have hrun : someDigits (d :: (ds ++ rest)) =
      .ok (d :: (ds ++ rest).takeWhile (·.isDigit), (ds ++ rest).dropWhile (·.isDigit)) := by
    show (if d.isDigit = true then _ else _ : Reader (List Char)) (d :: (ds ++ rest)) = _
    rw [if_pos hd]
    rfl
  rw [List.cons_append, hrun, Text.dropWhile_append_stop hds hrest, Text.takeWhile_append_stop hds hrest]

theorem integerDigits_run (n : Nat) (hrest : Text.Stops (·.isDigit) rest) :
    integerDigits ((toString n).toList ++ rest) = .ok ((toString n).toList, rest) := by
  have hdigits := someDigits_run (Text.toList_toString_ne_nil n) (fun _ => Text.isDigit_of_mem_toString) hrest
  rw [integerDigits, bind_of_ok hdigits]
  have hzero (d : Char) (ds : List Char) : (toString n).toList ≠ '0' :: d :: ds := fun h => by cases tail_of_zero h
  generalize (toString n).toList = digits at hzero
  split
  · exact absurd rfl (hzero _ _)
  · rfl

theorem fractionDigits_run (hrest : Text.Stops (· == '.') rest) : fractionDigits rest = .ok (none, rest) := by
  rw [fractionDigits, get_bind]
  split
  · cases hrest '.' rfl
  · rfl

theorem exponent_run (hrest : Text.Stops (fun c => c == 'e' || c == 'E') rest) : exponent rest = .ok (none, rest) := by
  cases rest with
  | nil => rfl
  | cons c rest =>
    have hnot := hrest c rfl
    show (if c = 'e' ∨ c = 'E' then _ else _ : Reader (Option Int)) (c :: rest) = _
    rw [if_neg (by simpa using hnot)]
    rfl

theorem le_foldl_digits (v : Nat) (ds : List Char) : v ≤ ds.foldl (fun value d => value * 10 + (d.toNat - '0'.toNat)) v := by
  induction ds generalizing v with
  | nil => exact Nat.le_refl v
  | cons d ds ih => exact Nat.le_trans (show v ≤ v * 10 + (d.toNat - '0'.toNat) by omega) (ih _)

/-- As long as the digits fit a word, all of them are kept. -/
theorem foldl_pushWhole {v : Nat} {ds : List Char}
    (h : ds.foldl (fun value d => value * 10 + (d.toNat - '0'.toNat)) v < limit64) :
    ds.foldl Decimal.pushWhole ⟨v, 0, false⟩ =
      ⟨ds.foldl (fun value d => value * 10 + (d.toNat - '0'.toNat)) v, 0, false⟩ := by
  induction ds generalizing v with
  | nil => rfl
  | cons d ds ih =>
    have hfits : ¬ limit64 ≤ v * 10 + (d.toNat - '0'.toNat) := Nat.not_le.mpr (Nat.lt_of_le_of_lt (le_foldl_digits _ ds) h)
    have hpush : Decimal.pushWhole ⟨v, 0, false⟩ d = ⟨v * 10 + (d.toNat - '0'.toNat), 0, false⟩ :=
      if_neg (by simpa using hfits)
    rw [List.foldl_cons, hpush]
    exact ih h

/-- The text of a number begins with a digit. -/
theorem exists_digit (n : Nat) : ∃ d ds, (toString n).toList = d :: ds ∧ d.isDigit = true := by
  obtain ⟨d, ds, htext⟩ := List.exists_cons_of_ne_nil (Text.toList_toString_ne_nil n)
  exact ⟨d, ds, htext, Text.isDigit_of_mem_toString (htext ▸ List.mem_cons_self)⟩

theorem ne_minus_of_isDigit (h : c.isDigit = true) : c ≠ '-' := by
  rintro rfl
  cases h

theorem head?_ne_minus (n : Nat) (rest : List Char) : ((toString n).toList ++ rest).head? ≠ some '-' := by
  obtain ⟨d, ds, htext, hd⟩ := exists_digit n
  rw [htext]
  exact fun h => ne_minus_of_isDigit hd (Option.some.inj h)

theorem number_run (hn : n < limit64) (hrest : Ended rest) :
    number ((toString n).toList ++ rest) = .ok (.natural n, rest) := by
  have hunsigned := head?_ne_minus n rest
  have hpushed : (toString n).toList.foldl Decimal.pushWhole ⟨0, 0, false⟩ = ⟨n, 0, false⟩ := by
    have hvalue := Text.foldl_toString n
    rw [foldl_pushWhole (hvalue.symm ▸ hn), hvalue]
  rw [number, get_bind]
  dsimp only
  rw [if_neg (by simpa using hunsigned), bind_of_ok (integerDigits_run n (hrest.stops (by decide))),
    bind_of_ok (fractionDigits_run (hrest.stops (by decide))), bind_of_ok (exponent_run (hrest.stops (by decide))), hpushed]
  rw [if_pos ⟨rfl, rfl, rfl⟩, if_neg hunsigned]
  rfl

/-! ### Skipped integers -/

theorem skipDigits_run (hne : digits ≠ []) (hdigits : ∀ d ∈ digits, d.isDigit = true) (hrest : Text.Stops (·.isDigit) rest) :
    skipDigits (digits ++ rest) = .ok (digits, rest) := by
  obtain ⟨d, ds, rfl⟩ := List.exists_cons_of_ne_nil hne
  obtain ⟨hd, hds⟩ := List.forall_mem_cons.mp hdigits
  have hrun : skipDigits (d :: (ds ++ rest)) =
      .ok (d :: (ds ++ rest).takeWhile (·.isDigit), (ds ++ rest).dropWhile (·.isDigit)) := by
    show (if d.isDigit = true then _ else _ : Reader (List Char)) (d :: (ds ++ rest)) = _
    rw [if_pos hd]
    rfl
  rw [List.cons_append, hrun, Text.dropWhile_append_stop hds hrest, Text.takeWhile_append_stop hds hrest]

theorem skipNumber_minus (h : text.head? ≠ some '-') : skipNumber ('-' :: text) = skipNumber text := by
  rw [skipNumber, get_bind, get_bind]
  dsimp only
  rw [if_neg h]
  rfl

theorem skipNumber_natural (n : Nat) (hrest : Ended rest) : skipNumber ((toString n).toList ++ rest) = .ok ((), rest) := by
  have hstops (c : Char) (hc : ∀ d ∈ [' ', '\n', '\t', '\r', ',', ']', '\x7d'], d ≠ c) : rest.head? ≠ some c := fun h =>
    Bool.noConfusion ((beq_self_eq_true c).symm.trans (hrest.stops (fun d hd => beq_eq_false_iff_ne.mpr (hc d hd)) c h))
  have hdigits := skipDigits_run (Text.toList_toString_ne_nil n) (fun _ => Text.isDigit_of_mem_toString)
    (hrest.stops (by decide))
  have hzero (d : Char) (ds : List Char) : (toString n).toList ≠ '0' :: d :: ds := fun h => by cases tail_of_zero h
  rw [skipNumber, get_bind]
  dsimp only
  rw [if_neg (head?_ne_minus n rest), bind_of_ok hdigits]
  generalize (toString n).toList = digits at hzero
  split
  · exact absurd rfl (hzero _ _)
  · rw [get_bind, if_neg (hstops '.' (by decide)), get_bind,
      if_neg (not_or.mpr ⟨hstops 'e' (by decide), hstops 'E' (by decide)⟩)]
    rfl

theorem skipNumber_run (n : Int) (hrest : Ended rest) : skipNumber ((toString n).toList ++ rest) = .ok ((), rest) := by
  cases n with
  | ofNat n => exact skipNumber_natural n hrest
  | negSucc n =>
    have htext : (toString (Int.negSucc n)).toList = '-' :: (toString (n + 1)).toList := by
      show ("-" ++ toString (n + 1)).toList = _
      simp
    rw [htext, List.cons_append, skipNumber_minus (head?_ne_minus _ _)]
    exact skipNumber_natural (n + 1) hrest

end TensorFuzz.Json
