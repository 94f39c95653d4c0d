import TensorFuzz.Layout
import TensorFuzz.Proofs.Check.Spacing

/-!
# The gaps of a laid out text

Laying out a text changes its gaps only. No gap comes up; one disappears only where no token goes on across it; and
between letters a gap becomes a single space.
-/

namespace TensorFuzz

open Text (isBlank IsGap GapRelation Respaced Stops words words_eq_runs runs runs_append_of_stops runs_append_of_closes
  runs_word Closes)
open Check (Splits isIdentChar SameGaps)

/-! ## Texts and their words -/

namespace Text

/-- The text has the words, and gaps in front of them and behind them. -/
inductive Worded : List Char → List (List Char) → Prop
  | nil {text : List Char} : IsGap text → Worded text []
  | cons {c : Char} {gap word rest : List Char} {ws : List (List Char)} : IsGap gap →
      (∀ d ∈ c :: word, isBlank d = false) → Stops (!isBlank ·) rest → Worded rest ws →
      Worded (gap ++ (c :: word ++ rest)) ((c :: word) :: ws)

theorem runs_eq_nil {p : Char → Bool} {text : List Char} (h : ∀ c ∈ text, p c = false) : runs p text = [] := by
  induction text with
  | nil => rfl
  | cons c text ih =>
    obtain ⟨hc, htext⟩ := List.forall_mem_cons.mp h
    have hskip : runs p ([] ++ c :: text) = runs p [] ++ runs p text := runs_around hc
    exact hskip.trans (ih htext)

theorem stops_dropWhile (p : Char → Bool) (text : List Char) : Stops p (text.dropWhile p) := fun c hc => by
  have hnot := List.head?_dropWhile_not p text
  rw [hc] at hnot
  exact hnot

theorem words_gap {gap : List Char} (hgap : IsGap gap) (text : List Char) : words (gap ++ text) = words text := by
  have hcloses : Closes (!isBlank ·) gap := fun c hc => by simp [hgap c (List.mem_of_getLast? hc)]
  have hnone : runs (!isBlank ·) gap = [] := runs_eq_nil fun c hc => by simp [hgap c hc]
  rw [words_eq_runs, words_eq_runs, runs_append_of_closes hcloses, hnone, List.nil_append]

theorem words_word {word rest : List Char} (hne : word ≠ []) (hword : ∀ d ∈ word, isBlank d = false)
    (hrest : Stops (!isBlank ·) rest) : words (word ++ rest) = word :: words rest := by
  rw [words_eq_runs, words_eq_runs, runs_append_of_stops hrest, runs_word hne fun d hd => by simp [hword d hd]]
  rfl

theorem words_worded (text : List Char) : Worded text (words text) := by
  induction hlength : text.length using Nat.strongRecOn generalizing text with
  | ind n ih =>
    have hgap : IsGap (text.takeWhile isBlank) := fun c hc => List.mem_takeWhile_imp hc
    have hcut := List.takeWhile_append_dropWhile (p := isBlank) (l := text)
    cases hdrop : text.dropWhile isBlank with
    | nil =>
      rw [hdrop, List.append_nil] at hcut
      rw [← hcut, ← List.append_nil (text.takeWhile isBlank), words_gap hgap, List.append_nil]
      exact .nil hgap
    | cons c rest =>
      have hc : isBlank c = false := stops_dropWhile isBlank text c (by rw [hdrop]; rfl)
      have hletters : ∀ d ∈ c :: rest.takeWhile (!isBlank ·), isBlank d = false :=
        List.forall_mem_cons.mpr ⟨hc, fun d hd => by simpa using List.mem_takeWhile_imp hd⟩
      have hstops := stops_dropWhile (!isBlank ·) rest
      rw [hdrop, ← List.takeWhile_append_dropWhile (p := (!isBlank ·)) (l := rest), ← List.cons_append] at hcut
      have hshort : (rest.dropWhile (!isBlank ·)).length < n := by
        have hlengths := congrArg List.length hcut
        simp only [List.length_append, List.length_cons] at hlengths
        omega
      rw [← hcut, words_gap hgap, words_word (List.cons_ne_nil _ _) hletters hstops]
      exact .cons hgap hletters hstops (ih _ hshort _ rfl)

end Text

/-! ## Steps of the layout -/

/-- What the layout does to the gap between two characters. -/
structure RelaidBetween (c d : Char) (gap gap' : List Char) : Prop where
  tight : gap = [] → gap' = []
  dropped : gap ≠ [] → gap' = [] → Splits c d
  letters : gap ≠ [] → isIdentChar c = true → isIdentChar d = true → gap' = [' ']

/-- What the layout does to gaps. -/
def Relaid : GapRelation := fun last d gap gap' => ∀ c ∈ last, RelaidBetween c d gap gap'

theorem Relaid.sameGaps {last : Option Char} {d : Char} {gap gap' : List Char} (h : Relaid last d gap gap') :
    SameGaps last d gap gap' := fun c hc => by
  obtain ⟨htight, hdropped, -⟩ := h c hc
  by_cases hgap : gap = []
  · exact .inl ⟨htight, fun _ => hgap⟩
  · by_cases hgap' : gap' = []
    · exact .inr (hdropped hgap hgap')
    · exact .inl ⟨fun h => absurd h hgap, fun h => absurd h hgap'⟩

namespace Layout

/-- The gap has been written since the last word of the state, and more may come. -/
structure Behind (s : State) (pending : List Char) : Prop where
  gap : IsGap pending
  startsLine : s.atLineStart = true → s.last ≠ [] → pending ≠ []
  goesOn : s.atLineStart = false → pending = []
  /-- Only braces and semicolons end a line. -/
  letters : ∀ c ∈ s.last.getLast?, isIdentChar c = true → s.atLineStart = false

theorem behind_start : Behind .start [] := ⟨List.forall_mem_nil _, fun _ h => absurd rfl h, nofun, nofun⟩

theorem push_reverse (s : State) (text : List Char) : (s.push text).reverse = s.written.reverse ++ text := by
  simp [State.push, List.reverseAux_eq]

theorem isGap_indentation (level : Int) : IsGap (indentation level) := fun c hc => by
  rw [List.eq_of_mem_replicate hc]
  decide

theorem isGap_line (level : Int) : IsGap ('\n' :: indentation level) :=
  List.forall_mem_cons.mpr ⟨by decide, isGap_indentation level⟩

theorem isGap_space : IsGap [' '] := List.forall_mem_singleton.mpr (by decide)

theorem isGap_append {gap gap' : List Char} (h : IsGap gap) (h' : IsGap gap') : IsGap (gap ++ gap') :=
  List.forall_mem_append.mpr ⟨h, h'⟩

/-- The state behind a mark that ends its line. -/
theorem behind_mark (written : List Char) (level indent : Int) {mark : Char} (hmark : isIdentChar mark = false) :
    Behind ⟨written, level, true, [mark]⟩ ('\n' :: indentation indent) := by
  refine ⟨isGap_line indent, fun _ _ => List.cons_ne_nil _ _, nofun, ?_⟩
  rintro _ ⟨⟩ h
  exact Bool.noConfusion (hmark.symm.trans h)

theorem behind_word (written : List Char) (level : Int) (word : List Char) : Behind ⟨written, level, false, word⟩ [] :=
  ⟨List.forall_mem_nil _, nofun, fun _ => rfl, fun _ _ _ => rfl⟩

variable {s : State} {pending : List Char}

theorem Behind.pending_ne (h : Behind s pending) (hline : s.atLineStart = true) {c : Char}
    (hc : c ∈ s.last.getLast?) : pending ≠ [] := by
  refine h.startsLine hline fun hnil => ?_
  rw [hnil] at hc
  cases hc

/-- In front of a mark, a gap may disappear if no token goes on with the mark. -/
theorem relaid_mark {last : Option Char} {mark : Char} {gap gap' : List Char} (hmark : isIdentChar mark = false)
    (hgap : gap ≠ []) (hdropped : ∀ c ∈ last, gap' = [] → Splits c mark) : Relaid last mark gap gap' := fun c hc =>
  ⟨fun h => absurd h hgap, fun _ hnone => hdropped c hc hnone, fun _ _ h => Bool.noConfusion (hmark.symm.trans h)⟩

/-- What a step does: it writes a gap, the word, and the beginning of the next gap. -/
structure Writes (s : State) (pending : List Char) (c : Char) (word lead trail : List Char) : Prop where
  written : (step s (c :: word)).written.reverse = s.written.reverse ++ (lead ++ (c :: word ++ trail))
  last : (step s (c :: word)).last = c :: word
  behind : Behind (step s (c :: word)) trail
  gap : IsGap (pending ++ lead)
  relaid : ∀ gap, gap ≠ [] → Relaid s.last.getLast? c gap (pending ++ lead)

section
variable (h : Behind s pending)
include h

theorem open_writes : ∃ lead trail, Writes s pending '\x7b' [] lead trail := by
  cases hline : s.atLineStart with
  | true =>
    have hstep : step s ['\x7b'] =
        ⟨s.push ('\x7b' :: '\n' :: indentation (s.level + 1)), s.level + 1, true, ['\x7b']⟩ := by simp [step, hline]
    refine ⟨[], '\n' :: indentation (s.level + 1), ⟨?_, by rw [hstep], ?_, ?_, fun gap hgap => ?_⟩⟩
    · rw [hstep, push_reverse]
      rfl
    · rw [hstep]
      exact behind_mark _ _ _ (by decide)
    · exact isGap_append h.gap (List.forall_mem_nil _)
    · refine relaid_mark (by decide) hgap fun c hc hnone => ?_
      exact absurd (List.append_eq_nil_iff.mp hnone).1 (h.pending_ne hline hc)
  | false =>
    have hstep : step s ['\x7b'] =
        ⟨s.push (' ' :: '\x7b' :: '\n' :: indentation (s.level + 1)), s.level + 1, true, ['\x7b']⟩ := by
      simp [step, hline]
    refine ⟨[' '], '\n' :: indentation (s.level + 1), ⟨?_, by rw [hstep], ?_, ?_, fun gap hgap => ?_⟩⟩
    · rw [hstep, push_reverse]
      rfl
    · rw [hstep]
      exact behind_mark _ _ _ (by decide)
    · exact isGap_append h.gap isGap_space
    · exact relaid_mark (by decide) hgap fun c hc hnone => absurd hnone (by simp)

theorem close_writes : ∃ lead trail, Writes s pending '\x7d' [] lead trail := by
  have hstep : step s ['\x7d'] = ⟨s.push ('\n' :: indentation (s.level - 1) ++
      '\x7d' :: '\n' :: indentation (s.level - 1)), s.level - 1, true, ['\x7d']⟩ := by simp [step]
  refine ⟨'\n' :: indentation (s.level - 1), '\n' :: indentation (s.level - 1),
    ⟨?_, by rw [hstep], ?_, ?_, fun gap hgap => ?_⟩⟩
  · rw [hstep, push_reverse]
    rfl
  · rw [hstep]
    exact behind_mark _ _ _ (by decide)
  · exact isGap_append h.gap (isGap_line _)
  · exact relaid_mark (by decide) hgap fun c hc hnone => absurd hnone (by simp)

theorem end_writes : ∃ lead trail, Writes s pending ';' [] lead trail := by
  have hstep : step s [';'] = ⟨s.push (';' :: '\n' :: indentation s.level), s.level, true, [';']⟩ := by simp [step]
  refine ⟨[], '\n' :: indentation s.level, ⟨?_, by rw [hstep], ?_, ?_, fun gap hgap => ?_⟩⟩
  · rw [hstep, push_reverse]
    rfl
  · rw [hstep]
    exact behind_mark _ _ _ (by decide)
  · exact isGap_append h.gap (List.forall_mem_nil _)
  · exact relaid_mark (by decide) hgap fun c hc _ => .inr (by decide)

variable {c : Char} {word : List Char} (hmarks : c :: word ≠ ['\x7b'] ∧ c :: word ≠ ['\x7d'] ∧ c :: word ≠ [';'])
include hmarks

theorem attached_writes (hattached : c :: word ∈ attached ∨ s.last ∈ openers ∨ s.atLineStart = true) :
    Writes s pending c word [] [] := by
  have hstep : step s (c :: word) = ⟨s.push (c :: word), s.level, false, c :: word⟩ := by
    rw [step, if_neg hmarks.1, if_neg hmarks.2.1, if_neg hmarks.2.2, if_pos hattached]
  have hcloser : c :: word ∈ attached → c ∈ ['(', ')', ']', ',', '!', ';'] ∧ isIdentChar c = false := fun hmem => by
    simp only [attached, List.mem_cons, List.cons.injEq, List.not_mem_nil, or_false] at hmem
    rcases hmem with ⟨rfl, -⟩ | ⟨rfl, -⟩ | ⟨rfl, -⟩ | ⟨rfl, -⟩ | ⟨rfl, -⟩ <;> decide
  have hopener {d : Char} (hd : d ∈ s.last.getLast?) : s.last ∈ openers → d ∈ ['(', '['] ∧ isIdentChar d = false :=
    fun hmem => by
      simp only [openers, List.mem_cons, List.not_mem_nil, or_false] at hmem
      rcases hmem with hlast | hlast <;> (rw [hlast] at hd; cases hd; decide)
  refine ⟨?_, by rw [hstep], ?_, ?_, fun gap hgap d hd => ⟨fun hnone => absurd hnone hgap, fun _ hnone => ?_, ?_⟩⟩
  · rw [hstep, push_reverse, List.nil_append, List.append_nil]
  · rw [hstep]
    exact behind_word _ _ _
  · exact isGap_append h.gap (List.forall_mem_nil _)
  · rcases hattached with hmem | hmem | hline
    · exact .inr (hcloser hmem).1
    · exact .inl (hopener hd hmem).1
    · exact absurd (List.append_eq_nil_iff.mp hnone).1 (h.pending_ne hline hd)
  · intro _ hletter hletter'
    rcases hattached with hmem | hmem | hline
    · exact Bool.noConfusion (hletter'.symm.trans (hcloser hmem).2)
    · exact Bool.noConfusion (hletter.symm.trans (hopener hd hmem).2)
    · exact Bool.noConfusion (hline.symm.trans (h.letters d hd hletter))

theorem spaced_writes (hspaced : ¬ (c :: word ∈ attached ∨ s.last ∈ openers ∨ s.atLineStart = true)) :
    Writes s pending c word [' '] [] := by
  have hstep : step s (c :: word) = ⟨s.push (' ' :: c :: word), s.level, false, c :: word⟩ := by
    rw [step, if_neg hmarks.1, if_neg hmarks.2.1, if_neg hmarks.2.2, if_neg hspaced]
  have hpending : pending = [] := h.goesOn (Bool.eq_false_iff.mpr fun hline => hspaced (.inr (.inr hline)))
  subst hpending
  refine ⟨?_, by rw [hstep], ?_, isGap_space, fun gap hgap d hd => ⟨fun hnone => absurd hnone hgap, nofun, fun _ _ _ => rfl⟩⟩
  · rw [hstep, push_reverse, List.append_nil]
    rfl
  · rw [hstep]
    exact behind_word _ _ _

end

theorem step_writes (h : Behind s pending) (c : Char) (word : List Char) :
    ∃ lead trail, Writes s pending c word lead trail := by
  by_cases hopen : c :: word = ['\x7b']
  · obtain ⟨rfl, rfl⟩ := List.cons.inj hopen
    exact open_writes h
  by_cases hclose : c :: word = ['\x7d']
  · obtain ⟨rfl, rfl⟩ := List.cons.inj hclose
    exact close_writes h
  by_cases hend : c :: word = [';']
  · obtain ⟨rfl, rfl⟩ := List.cons.inj hend
    exact end_writes h
  have hmarks := And.intro hopen (And.intro hclose hend)
  by_cases hattached : c :: word ∈ attached ∨ s.last ∈ openers ∨ s.atLineStart = true
  · exact ⟨[], [], attached_writes h hmarks hattached⟩
  · exact ⟨[' '], [], spaced_writes h hmarks hattached⟩

/-! ## Whole texts -/

/-- What is written from a state on, for a text that begins with a gap unless nothing has been read before. -/
theorem writes_respaced {text : List Char} {ws : List (List Char)} (hworded : Text.Worded text ws)
    (h : Behind s pending) (htext : s.last ≠ [] → Stops (!isBlank ·) text) :
    ∃ out, (ws.foldl step s).written.reverse = s.written.reverse ++ out ∧
      Respaced Relaid s.last.getLast? text (pending ++ out) := by
  induction hworded generalizing s pending with
  | nil hgap => exact ⟨[], (List.append_nil _).symm, .ending hgap (isGap_append h.gap (List.forall_mem_nil _))⟩
  | @cons c gap word rest ws hgap hletters hstops _ ih =>
    obtain ⟨lead, trail, hwrites⟩ := step_writes h c word
    obtain ⟨out, hout, hrest⟩ := ih hwrites.behind fun _ => hstops
    have hgap' : s.last ≠ [] → gap ≠ [] := by
      rintro hlast rfl
      have hblank : (!isBlank c) = false := htext hlast c rfl
      rw [hletters c List.mem_cons_self] at hblank
      cases hblank
    have hrelaid : Relaid s.last.getLast? c gap (pending ++ lead) := fun d hd => by
      refine hwrites.relaid gap (hgap' fun hnil => ?_) d hd
      rw [hnil] at hd
      cases hd
    have htight (d e : Char) : Relaid (some d) e [] [] := fun _ _ =>
      ⟨fun _ => rfl, fun h => absurd rfl h, fun h => absurd rfl h⟩
    refine ⟨lead ++ (c :: word ++ (trail ++ out)), ?_, ?_⟩
    · rw [List.foldl_cons, hout, hwrites.written]
      simp
    · rw [hwrites.last] at hrest
      rw [← List.append_assoc pending]
      exact .word hgap hwrites.gap hletters hrelaid htight hrest

/-- Laying out a text changes nothing but gaps. -/
theorem pretty_respaced (text : String) : Respaced Relaid none text.toList (pretty text).toList := by
  obtain ⟨out, hout, hrespaced⟩ := writes_respaced (Text.words_worded text.toList) behind_start fun h => absurd rfl h
  have hpretty : (pretty text).toList = out := by
    rw [pretty, String.toList_ofList]
    exact hout
  rw [hpretty]
  exact hrespaced

end Layout

end TensorFuzz
