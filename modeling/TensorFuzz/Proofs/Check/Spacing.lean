import TensorFuzz.Proofs.Check.Offsets
import TensorFuzz.Proofs.Expr.Tokens
import TensorFuzz.Proofs.Text.Respaced

/-!
# Tokens do not depend on gaps

A text keeps its tokens if the gaps in it get larger or smaller. A gap may also disappear or come up between two
characters that no token goes on across.
-/

namespace TensorFuzz.Check

open Text (isBlank IsGap GapRelation Respaced dropWhile_append_stop takeWhile_append_stop)

/-- No token goes on from the first character to the second one. -/
def Splits (c d : Char) : Prop := c ∈ ['(', '['] ∨ d ∈ ['(', ')', ']', ',', '!', ';']

/-- There is a gap in both texts or in none, unless no token goes on across it. -/
def SameGaps : GapRelation := fun last d gap gap' => ∀ c ∈ last, (gap = [] ↔ gap' = []) ∨ Splits c d

theorem SameGaps.symm {last : Option Char} {d : Char} {gap gap' : List Char} (h : SameGaps last d gap gap') :
    SameGaps last d gap' gap := fun c hc => (h c hc).imp_left Iff.symm

/-- The texts have the same gaps, as far as tokens depend on them. -/
abbrev Alike (last : Char) (text text' : List Char) : Prop := Respaced SameGaps (some last) text text'

variable {c d : Char} {text text' rest : List Char}

theorem not_splits (hc : c ∉ ['(', '[']) (hd : d ∉ ['(', ')', ']', ',', '!', ';']) : ¬ Splits c d :=
  fun h => h.elim hc hd

theorem not_opener_of_isIdentChar (h : isIdentChar c = true) : c ∉ ['(', '['] := fun hmem => by
  have hopeners : ∀ e ∈ ['(', '['], isIdentChar e = false := by decide
  exact Bool.noConfusion (h.symm.trans (hopeners c hmem))

theorem not_closer_of_isIdentChar (h : isIdentChar d = true) : d ∉ ['(', ')', ']', ',', '!', ';'] := fun hmem => by
  have hclosers : ∀ e ∈ ['(', ')', ']', ',', '!', ';'], isIdentChar e = false := by decide
  exact Bool.noConfusion (h.symm.trans (hclosers d hmem))

/-! ## Single tokens -/

/-- A number is an integer unless a point and digits follow it. -/
theorem next_digit (whole : String) (hc : c.isDigit = true) (rest : List Char) : next whole (c :: rest) =
    match fraction? (rest.dropWhile (·.isDigit)) with
    | some after => .ok (.float, after)
    | none => next.integer (c :: rest.takeWhile (·.isDigit)) (rest.dropWhile (·.isDigit)) := by
  rw [next, if_pos hc]
  generalize rest.dropWhile (·.isDigit) = after
  fun_cases fraction? after with
  | case1 d places hd =>
    show (if d.isDigit = true then _ else _) = _
    rw [if_pos hd]
  | case2 d places hd =>
    show (if d.isDigit = true then _ else _) = _
    rw [if_neg hd]
  | case3 _ hpoint =>
    dsimp only
    split
    · next d places => exact (hpoint d places rfl).elim
    · rfl

theorem exists_of_fraction? {after : List Char} (h : fraction? text = some after) :
    ∃ d places, text = '.' :: d :: places ∧ d.isDigit = true ∧ after = places.dropWhile (·.isDigit) := by
  unfold fraction? at h
  split at h
  · next d places =>
    split at h
    · next hd =>
      cases h
      exact ⟨d, places, rfl, hd, rfl⟩
    · cases h
  · cases h

theorem integer_ok {digits after rest : List Char} {token : Token} (h : next.integer digits after = .ok (token, rest))
    (after' : List Char) : next.integer digits after' = .ok (token, after') := by
  unfold next.integer at h ⊢
  dsimp only at h ⊢
  split at h
  · next hfits =>
    cases h
    exact if_pos hfits
  · cases h

namespace Alike

theorem symm (h : Alike c text text') : Alike c text' text := Respaced.symm h fun _ _ _ _ => SameGaps.symm

/-- A token that goes on in one text goes on in the other. -/
theorem uncons (h : Alike c (d :: rest) text') (hd : isBlank d = false) (hsplits : ¬ Splits c d) :
    ∃ rest', text' = d :: rest' ∧ Alike d rest rest' := by
  generalize htext : d :: rest = text at h
  cases h with
  | ending hgap =>
    subst htext
    exact Bool.noConfusion (hd.symm.trans (hgap d List.mem_cons_self))
  | @char _ e gap gap' rest rest' hgap _ _ hrel hrest =>
    cases gap with
    | nil =>
      cases htext
      have hnone : gap' = [] := ((hrel c rfl).resolve_right hsplits).mp rfl
      exact ⟨rest', by rw [hnone]; rfl, hrest⟩
    | cons b gap =>
      cases htext
      exact Bool.noConfusion (hd.symm.trans (hgap d List.mem_cons_self))

section
variable {p : Char → Bool} (hp : ∀ d, p d = true → isIdentChar d = true)

/-- The texts go on behind a run of letters, of any length in either. -/
def SameSpan (p : Char → Bool) (text text' : List Char) : Prop :=
  text.takeWhile p = text'.takeWhile p ∧ ∃ d, isIdentChar d = true ∧ Alike d (text.dropWhile p) (text'.dropWhile p)

theorem sameSpan_of_stops (h : Alike c text text') (hc : isIdentChar c = true) (htext : Text.Stops p text)
    (htext' : Text.Stops p text') : SameSpan p text text' := by
  have hempty : ∀ d ∈ ([] : List Char), p d = true := nofun
  have hcut {text : List Char} (h : Text.Stops p text) : text.takeWhile p = [] ∧ text.dropWhile p = text :=
    ⟨takeWhile_append_stop hempty h, dropWhile_append_stop hempty h⟩
  rw [SameSpan, (hcut htext).1, (hcut htext').1, (hcut htext).2, (hcut htext').2]
  exact ⟨rfl, c, hc, h⟩

include hp

/-- A gap ends a run of letters. -/
theorem stops_of_isGap {gap : List Char} (hgap : IsGap gap) (hrest : gap = [] → Text.Stops p rest) :
    Text.Stops p (gap ++ rest) := by
  cases gap with
  | nil => exact hrest rfl
  | cons b gap =>
    rintro _ ⟨⟩
    refine Bool.eq_false_iff.mpr fun hb => ?_
    exact Bool.noConfusion ((hgap b List.mem_cons_self).symm.trans (isBlank_of_isIdentChar (hp b hb)))

/-- A run of letters goes on equally far in both texts. -/
theorem sameSpan {last : Option Char} (h : Respaced SameGaps last text text') (hlast : last = some c)
    (hc : isIdentChar c = true) : SameSpan p text text' := by
  induction h generalizing c with
  | @ending _ text text' htext htext' =>
    have hstops {gap : List Char} (h : IsGap gap) : Text.Stops p gap := by
      rw [← List.append_nil gap]
      exact stops_of_isGap hp h fun _ => nofun
    exact sameSpan_of_stops (.ending htext htext') hc (hstops htext) (hstops htext')
  | @char _ d gap gap' text text' hgap hgap' hd hrel hrest ih =>
    subst hlast
    have hsame (hpd : p d = true) : gap = [] ↔ gap' = [] :=
      (hrel c rfl).resolve_right (not_splits (not_opener_of_isIdentChar hc) (not_closer_of_isIdentChar (hp d hpd)))
    by_cases hgo : gap = [] ∧ p d = true
    · obtain ⟨rfl, hpd⟩ := hgo
      obtain rfl := (hsame hpd).mp rfl
      obtain ⟨htake, hdrop⟩ := ih rfl (hp d hpd)
      rw [SameSpan, List.nil_append, List.nil_append, List.takeWhile_cons_of_pos hpd, List.takeWhile_cons_of_pos hpd,
        List.dropWhile_cons_of_pos hpd, List.dropWhile_cons_of_pos hpd, htake]
      exact ⟨rfl, hdrop⟩
    · have hstops {gap text : List Char} (h : IsGap gap) (hgo : ¬ (gap = [] ∧ p d = true)) :
          Text.Stops p (gap ++ d :: text) := stops_of_isGap hp h fun hnil => by
        rintro _ ⟨⟩
        exact Bool.eq_false_iff.mpr fun hpd => hgo ⟨hnil, hpd⟩
      refine sameSpan_of_stops (.char hgap hgap' hd hrel hrest) hc (hstops hgap hgo) (hstops hgap' fun hgo' => ?_)
      exact hgo ⟨(hsame hgo'.2).mpr hgo'.1, hgo'.2⟩

end

/-- A string ends in both texts or in none. -/
theorem quoted {last : Option Char} (h : Respaced SameGaps last text text') :
    (text.dropWhile (· ≠ '"') = [] ∧ text'.dropWhile (· ≠ '"') = []) ∨
      ∃ rest rest', text.dropWhile (· ≠ '"') = '"' :: rest ∧ text'.dropWhile (· ≠ '"') = '"' :: rest' ∧
        Alike '"' rest rest' := by
  have hgap {gap : List Char} (hgap : IsGap gap) : ∀ c ∈ gap, decide (c ≠ '"') = true := fun c hc => by
    refine decide_eq_true ?_
    rintro rfl
    exact absurd (hgap _ hc) (by decide)
  induction h with
  | ending htext htext' =>
    exact .inl ⟨List.dropWhile_eq_nil_iff.mpr (hgap htext), List.dropWhile_eq_nil_iff.mpr (hgap htext')⟩
  | @char _ d gap gap' text text' hblank hblank' _ _ hrest ih =>
    rw [List.dropWhile_append_of_pos (hgap hblank), List.dropWhile_append_of_pos (hgap hblank')]
    by_cases hd : d = '"'
    · subst hd
      exact .inr ⟨text, text', rfl, rfl, hrest⟩
    · rwa [List.dropWhile_cons_of_pos (by simpa using hd), List.dropWhile_cons_of_pos (by simpa using hd)]

/-- A point and digits behind a number. -/
theorem fraction (h : Alike c text text') (hc : isIdentChar c = true) {after : List Char}
    (hfraction : fraction? text = some after) :
    ∃ d after', fraction? text' = some after' ∧ Alike d after after' := by
  obtain ⟨d, places, rfl, hd, rfl⟩ := exists_of_fraction? hfraction
  have hident := isIdentChar_of_isDigit hd
  obtain ⟨rest, rfl, hrest⟩ := h.uncons (by decide) (not_splits (not_opener_of_isIdentChar hc) (by decide))
  obtain ⟨places', rfl, hplaces⟩ := hrest.uncons (isBlank_of_isIdentChar hident)
    (not_splits (by decide) (not_closer_of_isIdentChar hident))
  obtain ⟨-, e, -, hafter⟩ := sameSpan (fun _ => isIdentChar_of_isDigit) hplaces rfl hident
  exact ⟨e, _, if_pos hd, hafter⟩

theorem fraction_none (h : Alike c text text') (hc : isIdentChar c = true) (hfraction : fraction? text = none) :
    fraction? text' = none := by
  cases hfraction' : fraction? text' with
  | none => rfl
  | some after' =>
    obtain ⟨d, after, hsome, -⟩ := h.symm.fraction hc hfraction'
    rw [hfraction] at hsome
    cases hsome

theorem symbol {symbol : Symbol} {after : List Char} (h : Alike c text text')
    (hsymbol : symbol? (c :: text) = some (symbol, after)) :
    ∃ d after', symbol? (c :: text') = some (symbol, after') ∧ Alike d after after' := by
  -- No gap comes up in front of the second character of a symbol, or disappears.
  have hequals (hc : c ∉ ['(', '[']) (hshort : ∀ rest, text = '=' :: rest → False) (rest : List Char) :
      text' = '=' :: rest → False := by
    rintro rfl
    obtain ⟨rest', rfl, -⟩ := h.symm.uncons (by decide) (not_splits hc (by decide))
    exact hshort rest' rfl
  unfold symbol? at hsymbol
  split at hsymbol <;> cases hsymbol
  case h_1 | h_2 | h_3 | h_4 | h_5 =>
    next heq =>
      cases heq
      obtain ⟨rest', rfl, hrest⟩ := h.uncons (by decide) (not_splits (by decide) (by decide))
      exact ⟨_, rest', rfl, hrest⟩
  case h_17 | h_18 | h_19 =>
    next hshort heq =>
      cases heq
      refine ⟨_, text', ?_, h⟩
      rw [symbol?]
      exact hequals (by decide) hshort
  all_goals
    next heq =>
      cases heq
      exact ⟨_, text', rfl, h⟩

theorem query (h : Alike '.' text text') (hletter : (text.head?.map (·.isAlpha)).getD false = true) :
    (text'.head?.map (·.isAlpha)).getD false = true ∧ SameSpan isIdentChar text text' := by
  cases text with
  | nil => cases hletter
  | cons d rest =>
    have hd : isIdentChar d = true := isIdentChar_of_isIdentStart (Bool.or_eq_true_iff.mpr (.inl hletter))
    obtain ⟨rest', rfl, hrest⟩ := h.uncons (isBlank_of_isIdentChar hd)
      (not_splits (by decide) (not_closer_of_isIdentChar hd))
    obtain ⟨htake, hdrop⟩ := sameSpan (fun _ => id) hrest rfl hd
    refine ⟨hletter, ?_⟩
    rw [SameSpan, List.takeWhile_cons_of_pos hd, List.takeWhile_cons_of_pos hd, List.dropWhile_cons_of_pos hd,
      List.dropWhile_cons_of_pos hd, htake]
    exact ⟨rfl, hdrop⟩

theorem number {whole whole' : String} {token : Token} {after : List Char} (h : Alike c text text')
    (hdigit : c.isDigit = true) (hnext : next whole (c :: text) = .ok (token, after)) :
    ∃ d after', Check.next whole' (c :: text') = .ok (token, after') ∧ Alike d after after' := by
  rw [next_digit _ hdigit] at hnext ⊢
  obtain ⟨htake, d, hd, hdrop⟩ := sameSpan (fun _ => isIdentChar_of_isDigit) h rfl (isIdentChar_of_isDigit hdigit)
  cases hfraction : fraction? (text.dropWhile (·.isDigit)) with
  | some places =>
    rw [hfraction] at hnext
    cases hnext
    obtain ⟨e, places', hfraction', hplaces⟩ := hdrop.fraction hd hfraction
    rw [hfraction']
    exact ⟨e, places', rfl, hplaces⟩
  | none =>
    rw [hfraction] at hnext
    rw [hdrop.fraction_none hd hfraction, ← htake]
    obtain rfl := integer_after hnext
    exact ⟨d, _, integer_ok hnext _, hdrop⟩

/-- The first token is the same in both texts, and what follows it is alike. -/
theorem next {whole whole' : String} {token : Token} {after : List Char} (h : Alike c text text')
    (hnext : next whole (c :: text) = .ok (token, after)) :
    ∃ d after', Check.next whole' (c :: text') = .ok (token, after') ∧ Alike d after after' := by
  by_cases hdigit : c.isDigit = true
  · exact h.number hdigit hnext
  rw [Check.next, if_neg hdigit] at hnext ⊢
  by_cases hquote : c = '"'
  · rw [if_pos hquote] at hnext ⊢
    rcases Alike.quoted h with ⟨hnone, -⟩ | ⟨rest, rest', hdrop, hdrop', hrest⟩
    · rw [hnone] at hnext
      cases hnext
    · rw [hdrop] at hnext
      rw [hdrop']
      cases hnext
      exact ⟨'"', rest', rfl, hrest⟩
  rw [if_neg hquote] at hnext ⊢
  by_cases hstart : isIdentStart c = true
  · rw [if_pos hstart] at hnext ⊢
    obtain ⟨htake, d, hd, hdrop⟩ := sameSpan (fun _ => id) h rfl (isIdentChar_of_isIdentStart hstart)
    cases hnext
    exact ⟨d, _, by rw [htake], hdrop⟩
  rw [if_neg hstart] at hnext ⊢
  by_cases hquery : (c = '.' && (text.head?.map (·.isAlpha)).getD false) = true
  · rw [if_pos hquery] at hnext
    obtain ⟨hc, hletter⟩ := Bool.and_eq_true_iff.mp hquery
    obtain rfl := of_decide_eq_true hc
    obtain ⟨hletter', htake, d, -, hdrop⟩ := Alike.query h hletter
    rw [if_pos (Bool.and_eq_true_iff.mpr ⟨hc, hletter'⟩), ← htake]
    cases hnext
    exact ⟨d, _, rfl, hdrop⟩
  have hquery' : ¬ (c = '.' && (text'.head?.map (·.isAlpha)).getD false) = true := fun hletter' => hquery ?_
  · rw [if_neg hquery] at hnext
    rw [if_neg hquery']
    cases hsymbol : symbol? (c :: text) with
    | none =>
      rw [hsymbol] at hnext
      cases hnext
    | some found =>
      rw [hsymbol] at hnext
      cases hnext
      obtain ⟨d, after', hsymbol', hafter⟩ := h.symbol hsymbol
      rw [hsymbol']
      exact ⟨d, after', rfl, hafter⟩
  · obtain ⟨hc, hletter'⟩ := Bool.and_eq_true_iff.mp hletter'
    obtain rfl := of_decide_eq_true hc
    exact (Alike.query (Alike.symm h) hletter').1

end Alike

/-! ## Whole texts -/

theorem scan_respaced {whole whole' : String} {fuel fuel' : Nat} {done ts : List Token} {last : Option Char}
    (h : Respaced SameGaps last text text') (hfuel : text'.length < fuel') (hscan : scan whole fuel done text = .ok ts) :
    scan whole' fuel' done text' = .ok ts := by
  induction fuel generalizing done text text' fuel' last with
  | zero => cases hscan
  | succ fuel ih =>
    obtain ⟨fuel', rfl⟩ : ∃ n, fuel' = n + 1 := ⟨fuel' - 1, by omega⟩
    have hdrop := length_dropWhile_le isBlank text'
    rw [scan] at hscan ⊢
    rcases h.trimmed with ⟨hend, hend'⟩ | ⟨c, rest, rest', hrest, hrest', h⟩
    · rw [hend] at hscan
      rw [hend']
      exact hscan
    · rw [hrest] at hscan
      rw [hrest'] at hdrop ⊢
      dsimp only at hscan ⊢
      cases hnext : next whole (c :: rest) with
      | error e =>
        rw [hnext] at hscan
        cases hscan
      | ok found =>
        obtain ⟨token, after⟩ := found
        rw [hnext] at hscan
        obtain ⟨d, after', hnext', hafter⟩ : ∃ d after', next whole' (c :: rest') = .ok (token, after') ∧
          Alike d after after' := Alike.next h hnext
        have hlength := next_length hnext'
        rw [hnext']
        exact ih hafter (by omega) hscan

/-- Texts with the same gaps, as far as tokens depend on them, have the same tokens if any. -/
theorem tokens_respaced {text text' : String} (h : Respaced SameGaps none text.toList text'.toList) (ts : List Token) :
    tokens text = .ok ts ↔ tokens text' = .ok ts :=
  ⟨scan_respaced h (Nat.lt_succ_self _), scan_respaced (h.symm fun _ _ _ _ => SameGaps.symm) (Nat.lt_succ_self _)⟩

theorem check_of_tokens {text text' : String} (htokens : ∀ ts, tokens text = .ok ts → tokens text' = .ok ts)
    {scope : Scope} {records : Registry} {ty : Ty} (h : check scope records text = .ok ty) :
    check scope records text' = .ok ty := by
  obtain ⟨ts, hts, h⟩ := exists_of_bind_ok h
  obtain ⟨⟨typed, rest⟩, htyped, h⟩ := exists_of_bind_ok h
  rw [check, htokens ts hts]
  show (typeOf scope records ts >>= _) = _
  rw [htyped]
  dsimp only at h
  show (if rest.isEmpty = true then _ else _) = _
  by_cases hrest : rest.isEmpty = true
  · rw [if_pos hrest] at h ⊢
    exact h
  · rw [if_neg hrest] at h
    cases h

/-- An expression has the same type whatever gaps are in its text, as far as tokens do not depend on them. -/
theorem check_respaced {text text' : String} (h : Respaced SameGaps none text.toList text'.toList) (scope : Scope)
    (records : Registry) (ty : Ty) : check scope records text = .ok ty ↔ check scope records text' = .ok ty :=
  ⟨check_of_tokens fun ts => (tokens_respaced h ts).mp, check_of_tokens fun ts => (tokens_respaced h ts).mpr⟩

end TensorFuzz.Check
