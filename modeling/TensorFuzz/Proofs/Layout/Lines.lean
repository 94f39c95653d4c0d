import TensorFuzz.Proofs.Layout.Gaps

/-!
# The lines of a laid out text

An opening brace and a semicolon stand last on their lines, a closing brace stands alone, and in front of the words of a
line stand as many tabs as braces are open. The lines are followed word by word: all but the last one are finished, and
the last one is still empty, or holds words that end no line.
-/

namespace TensorFuzz.Layout

open Text (isBlank words Worded words_worded)

/-! ## Lines -/

/-- The words that a line ends behind. -/
def marks : List (List Char) := [['\x7b'], ['\x7d'], [';']]

/-- The opening braces among the words less the closing ones. -/
def balance (ws : List (List Char)) : Int := ws.count ['\x7b'] - ws.count ['\x7d']

/-- The number of line breaks around the words: one behind each mark, and one more in front of a closing brace. -/
def breaks (ws : List (List Char)) : Nat := ws.count ['\x7b'] + ws.count [';'] + 2 * ws.count ['\x7d']

/-- A line of a text, with the words that stand on it. -/
structure Line where
  text : List Char
  words : List (List Char)

/-- A line as the layout writes it behind other words. -/
structure Line.Proper (before : List (List Char)) (line : Line) : Prop where
  visible : line.text.filter (!isBlank ·) = line.words.flatten
  /-- Only tabs stand in front of the words, one for each open brace; a closing brace counts for its own line. -/
  indented : line.words ≠ [] → ∃ c rest, isBlank c = false ∧
    line.text = List.replicate (balance before - line.words.count ['\x7d']).toNat '\t' ++ c :: rest
  gaps : ∀ c ∈ line.text, isBlank c = true → c = ' ' ∨ c = '\t'
  last : ['\x7b'] ∉ line.words.dropLast ∧ [';'] ∉ line.words.dropLast
  alone : ['\x7d'] ∈ line.words → line.words = [['\x7d']]

/-- The last of the lines, if there is one, ends with a mark. -/
def EndsInMark (lines : List Line) : Prop := ∀ line ∈ lines.getLast?, ∃ mark ∈ line.words.getLast?, mark ∈ marks

/-- The lines of a text: each is proper behind the words of those before it, and it begins behind a mark or with a
closing brace. -/
inductive Arranged : List Line → Prop
  | nil : Arranged []
  | snoc {lines : List Line} {line : Line} : Arranged lines → line.Proper (lines.flatMap (·.words)) →
      EndsInMark lines ∨ line.words = [['\x7d']] → Arranged (lines ++ [line])

theorem balance_concat (ws : List (List Char)) (word : List Char) :
    balance (ws ++ [word]) = balance ws + balance [word] := by
  simp only [balance, List.count_append]
  omega

theorem breaks_concat (ws : List (List Char)) (word : List Char) :
    breaks (ws ++ [word]) = breaks ws + breaks [word] := by
  simp only [breaks, List.count_append]
  omega

section
variable {word : List Char} (h : word ∉ marks)
include h

theorem count_plain {mark : List Char} (hmark : mark ∈ marks) : [word].count mark = 0 :=
  List.count_eq_zero.mpr fun hmem => h (List.mem_singleton.mp hmem ▸ hmark)

theorem balance_plain : balance [word] = 0 := by
  have hopen : [word].count ['\x7b'] = 0 := count_plain h (by decide)
  have hclose : [word].count ['\x7d'] = 0 := count_plain h (by decide)
  rw [balance, hopen, hclose]
  rfl

theorem breaks_plain : breaks [word] = 0 := by
  have hopen : [word].count ['\x7b'] = 0 := count_plain h (by decide)
  have hclose : [word].count ['\x7d'] = 0 := count_plain h (by decide)
  have hend : [word].count [';'] = 0 := count_plain h (by decide)
  rw [breaks, hopen, hclose, hend]

end

/-! ## Single lines -/

section
variable {before : List (List Char)} {line : Line}

theorem visible_indentation (level : Int) : (indentation level).filter (!isBlank ·) = [] :=
  List.filter_eq_nil_iff.mpr fun c hc => by simp [isGap_indentation level c hc]

theorem visible_word {word : List Char} (h : ∀ c ∈ word, isBlank c = false) : word.filter (!isBlank ·) = word :=
  List.filter_eq_self.mpr fun c hc => by simp [h c hc]

theorem gaps_indentation (level : Int) : ∀ c ∈ indentation level, isBlank c = true → c = ' ' ∨ c = '\t' :=
  fun _ hc _ => .inr (List.eq_of_mem_replicate hc)

/-- A line that nothing stands on yet. -/
theorem proper_empty (before : List (List Char)) (level : Int) : Line.Proper before ⟨indentation level, []⟩ where
  visible := visible_indentation level
  indented h := absurd rfl h
  gaps := gaps_indentation level
  last := ⟨List.not_mem_nil, List.not_mem_nil⟩
  alone h := absurd h List.not_mem_nil

theorem proper_closing (before : List (List Char)) :
    Line.Proper before ⟨indentation (balance before - 1) ++ ['\x7d'], [['\x7d']]⟩ where
  visible := by
    rw [List.filter_append, visible_indentation]
    rfl
  indented _ := ⟨'\x7d', [], by decide, rfl⟩
  gaps := List.forall_mem_append.mpr ⟨gaps_indentation _, List.forall_mem_singleton.mpr fun h => absurd h (by decide)⟩
  last := ⟨List.not_mem_nil, List.not_mem_nil⟩
  alone _ := rfl

/-- A line that a word may be added to: it is still empty, or holds words that end no line. -/
structure Line.Open (before : List (List Char)) (line : Line) : Prop where
  proper : line.Proper before
  plain : ∀ w ∈ line.words, w ∉ marks
  empty : line.words = [] → line.text = indentation (balance before)

/-- The line with one more word, behind a gap. -/
def Line.extend (line : Line) (gap word : List Char) : Line := ⟨line.text ++ (gap ++ word), line.words ++ [word]⟩

/-- Only a closing brace needs a line of its own. -/
theorem Line.Open.extend (h : line.Open before) {gap : List Char} (hgap : ∀ c ∈ gap, c = ' ')
    (hfirst : line.words = [] → gap = []) {c : Char} {word : List Char} (hword : ∀ d ∈ c :: word, isBlank d = false)
    (hclose : c :: word ≠ ['\x7d']) : (line.extend gap (c :: word)).Proper before where
  visible := by
    have hblank : ∀ d ∈ gap, isBlank d = true := fun d hd => by
      rw [hgap d hd]
      decide
    have hgap : gap.filter (!isBlank ·) = [] := List.filter_eq_nil_iff.mpr fun d hd => by simp [hblank d hd]
    show (line.text ++ (gap ++ c :: word)).filter (!isBlank ·) = (line.words ++ [c :: word]).flatten
    rw [List.filter_append, List.filter_append, h.proper.visible, hgap, visible_word hword, List.flatten_concat]
    rfl
  indented _ := by
    have hnone : (line.words ++ [c :: word]).count ['\x7d'] = 0 := by
      rw [List.count_eq_zero, List.mem_append, List.mem_singleton]
      rintro (hmem | heq)
      · exact h.plain _ hmem (by decide)
      · exact hclose heq.symm
    have hnone' : line.words.count ['\x7d'] = 0 := List.count_eq_zero.mpr fun hmem => h.plain _ hmem (by decide)
    show ∃ d rest, isBlank d = false ∧ line.text ++ (gap ++ c :: word) = List.replicate
      (balance before - (line.words ++ [c :: word]).count ['\x7d']).toNat '\t' ++ d :: rest
    rw [hnone]
    by_cases hempty : line.words = []
    · rw [hfirst hempty, h.empty hempty]
      exact ⟨c, word, hword c List.mem_cons_self, by simp [indentation]⟩
    · obtain ⟨d, rest, hd, htext⟩ := h.proper.indented hempty
      rw [hnone'] at htext
      exact ⟨d, rest ++ (gap ++ c :: word), hd, by rw [htext]; simp⟩
  gaps := by
    refine List.forall_mem_append.mpr ⟨h.proper.gaps, List.forall_mem_append.mpr ⟨fun d hd _ => .inl (hgap d hd), ?_⟩⟩
    exact fun d hd hblank => Bool.noConfusion ((hword d hd).symm.trans hblank)
  last := by
    show _ ∉ (line.words ++ [c :: word]).dropLast ∧ _ ∉ (line.words ++ [c :: word]).dropLast
    rw [List.dropLast_concat]
    exact ⟨fun hmem => h.plain _ hmem (by decide), fun hmem => h.plain _ hmem (by decide)⟩
  alone hmem := by
    rcases List.mem_append.mp hmem with hmem | hmem
    · exact absurd (by decide) (h.plain _ hmem)
    · exact absurd (List.mem_singleton.mp hmem).symm hclose

end

/-! ## Steps of the layout -/

/-- The words laid out so far stand on finished lines, and on the line that the next word may be added to. -/
structure Laid (s : State) (ws : List (List Char)) (lines : List Line) (line : Line) : Prop where
  written : s.written.reverse = lines.flatMap (fun l => l.text ++ ['\n']) ++ line.text
  words : lines.flatMap (·.words) ++ line.words = ws
  arranged : Arranged lines
  marked : EndsInMark lines
  isOpen : line.Open (lines.flatMap (·.words))
  level : s.level = balance ws
  length : lines.length = breaks ws
  start : s.atLineStart = true ↔ line.words = []

theorem laid_start : Laid .start [] [] ⟨[], []⟩ where
  written := rfl
  words := rfl
  arranged := .nil
  marked _ h := nomatch h
  isOpen := ⟨proper_empty [] 0, List.forall_mem_nil _, fun _ => rfl⟩
  level := rfl
  length := rfl
  start := iff_of_true rfl rfl

theorem endsInMark_snoc (lines : List Line) {line : Line} {ws : List (List Char)} {mark : List Char}
    (hline : line.words = ws ++ [mark]) (hmark : mark ∈ marks) : EndsInMark (lines ++ [line]) := by
  intro last hlast
  rw [List.getLast?_concat] at hlast
  cases hlast
  exact ⟨mark, by rw [hline, List.getLast?_concat]; rfl, hmark⟩

/-- Behind a mark a line begins, as deep as the braces are open. -/
theorem laid_begin {s : State} {ws : List (List Char)} {lines : List Line} (harranged : Arranged lines)
    (hmarked : EndsInMark lines) (hwords : lines.flatMap (·.words) = ws) (hlevel : s.level = balance ws)
    (hlength : lines.length = breaks ws) (hstart : s.atLineStart = true)
    (hwritten : s.written.reverse = lines.flatMap (fun l => l.text ++ ['\n']) ++ indentation s.level) :
    Laid s ws lines ⟨indentation s.level, []⟩ where
  written := hwritten
  words := by rw [List.append_nil, hwords]
  arranged := harranged
  marked := hmarked
  isOpen := ⟨proper_empty _ _, List.forall_mem_nil _, fun _ => by rw [hlevel, hwords]⟩
  level := hlevel
  length := hlength
  start := iff_of_true hstart rfl

section
variable {s : State} {ws : List (List Char)} {lines : List Line} {line : Line}

/-- A word that is no mark is added to the line, and the line goes on. -/
theorem Laid.extend (h : Laid s ws lines line) {c : Char} {word : List Char}
    (hword : ∀ d ∈ c :: word, isBlank d = false) (hmark : c :: word ∉ marks) {gap : List Char}
    (hgap : ∀ d ∈ gap, d = ' ') (hfirst : line.words = [] → gap = []) :
    Laid ⟨s.push (gap ++ c :: word), s.level, false, c :: word⟩ (ws ++ [c :: word]) lines
      (line.extend gap (c :: word)) where
  written := by
    rw [push_reverse, h.written, List.append_assoc]
    rfl
  words := by
    rw [← h.words, List.append_assoc]
    rfl
  arranged := h.arranged
  marked := h.marked
  isOpen := by
    refine ⟨h.isOpen.extend hgap hfirst hword fun heq => hmark (by rw [heq]; decide), ?_, fun hnil => ?_⟩
    · exact List.forall_mem_append.mpr ⟨h.isOpen.plain, List.forall_mem_singleton.mpr hmark⟩
    · exact absurd hnil (List.append_ne_nil_of_right_ne_nil _ (List.cons_ne_nil _ _))
  level := by rw [balance_concat, balance_plain hmark, Int.add_zero, h.level]
  length := by rw [breaks_concat, breaks_plain hmark, Nat.add_zero, h.length]
  start := iff_of_false Bool.false_ne_true (List.append_ne_nil_of_right_ne_nil _ (List.cons_ne_nil _ _))

theorem Laid.plain (h : Laid s ws lines line) {c : Char} {word : List Char} (hword : ∀ d ∈ c :: word, isBlank d = false)
    (hmark : c :: word ∉ marks) : ∃ lines' line', Laid (step s (c :: word)) (ws ++ [c :: word]) lines' line' := by
  have hopen : c :: word ≠ ['\x7b'] := fun heq => hmark (by rw [heq]; decide)
  have hclose : c :: word ≠ ['\x7d'] := fun heq => hmark (by rw [heq]; decide)
  have hend : c :: word ≠ [';'] := fun heq => hmark (by rw [heq]; decide)
  by_cases hattached : c :: word ∈ attached ∨ s.last ∈ openers ∨ s.atLineStart = true
  · have hstep : step s (c :: word) = ⟨s.push ([] ++ c :: word), s.level, false, c :: word⟩ := by
      rw [step, if_neg hopen, if_neg hclose, if_neg hend, if_pos hattached, List.nil_append]
    rw [hstep]
    exact ⟨_, _, h.extend hword hmark (List.forall_mem_nil _) fun _ => rfl⟩
  · have hstep : step s (c :: word) = ⟨s.push ([' '] ++ c :: word), s.level, false, c :: word⟩ := by
      rw [step, if_neg hopen, if_neg hclose, if_neg hend, if_neg hattached]
      rfl
    rw [hstep]
    refine ⟨_, _, h.extend hword hmark (List.forall_mem_singleton.mpr rfl) fun hnil => ?_⟩
    exact absurd (.inr (.inr (h.start.mpr hnil))) hattached

/-- A mark that is added to the line finishes it. -/
theorem Laid.finish (h : Laid s ws lines line) {mark : Char} (hmark : [mark] = ['\x7b'] ∨ [mark] = [';'])
    {gap : List Char} (hgap : ∀ d ∈ gap, d = ' ') (hfirst : line.words = [] → gap = []) {level : Int}
    (hlevel : level = balance (ws ++ [[mark]])) :
    Laid ⟨s.push (gap ++ mark :: '\n' :: indentation level), level, true, [mark]⟩ (ws ++ [[mark]])
      (lines ++ [line.extend gap [mark]]) ⟨indentation level, []⟩ := by
  have hclose : [mark] ≠ ['\x7d'] := by
    rintro heq
    rw [heq] at hmark
    revert hmark
    decide
  have hblank : ∀ d ∈ [mark], isBlank d = false := by
    rcases hmark with heq | heq <;> (rw [heq]; decide)
  have hmem : [mark] ∈ marks := by
    rcases hmark with heq | heq <;> (rw [heq]; decide)
  refine laid_begin (.snoc h.arranged (h.isOpen.extend hgap hfirst hblank hclose) (.inl h.marked))
    (endsInMark_snoc lines rfl hmem) ?_ hlevel ?_ rfl ?_
  · rw [List.flatMap_append, ← h.words, List.append_assoc]
    simp [Line.extend]
  · rw [List.length_append, h.length]
    rcases hmark with heq | heq <;> (rw [heq, breaks_concat]; rfl)
  · rw [push_reverse, h.written]
    simp [Line.extend]

theorem Laid.open (h : Laid s ws lines line) :
    ∃ lines' line', Laid (step s ['\x7b']) (ws ++ [['\x7b']]) lines' line' := by
  have hlevel : s.level + 1 = balance (ws ++ [['\x7b']]) := by
    rw [h.level, balance_concat]
    rfl
  cases hline : s.atLineStart with
  | true =>
    have hstep : step s ['\x7b'] =
        ⟨s.push ([] ++ '\x7b' :: '\n' :: indentation (s.level + 1)), s.level + 1, true, ['\x7b']⟩ := by
      simp [step, hline]
    rw [hstep]
    exact ⟨_, _, h.finish (.inl rfl) (List.forall_mem_nil _) (fun _ => rfl) hlevel⟩
  | false =>
    have hstep : step s ['\x7b'] =
        ⟨s.push ([' '] ++ '\x7b' :: '\n' :: indentation (s.level + 1)), s.level + 1, true, ['\x7b']⟩ := by
      simp [step, hline]
    rw [hstep]
    refine ⟨_, _, h.finish (.inl rfl) (List.forall_mem_singleton.mpr rfl) (fun hnil => ?_) hlevel⟩
    exact Bool.noConfusion (hline.symm.trans (h.start.mpr hnil))

theorem Laid.end (h : Laid s ws lines line) :
    ∃ lines' line', Laid (step s [';']) (ws ++ [[';']]) lines' line' := by
  have hlevel : s.level = balance (ws ++ [[';']]) := by
    rw [h.level, balance_concat]
    exact (Int.add_zero _).symm
  have hstep : step s [';'] = ⟨s.push ([] ++ ';' :: '\n' :: indentation s.level), s.level, true, [';']⟩ := by
    simp [step]
  rw [hstep]
  exact ⟨_, _, h.finish (.inr rfl) (List.forall_mem_nil _) (fun _ => rfl) hlevel⟩

/-- A closing brace finishes the line as it is, and stands on the next one. -/
theorem Laid.close (h : Laid s ws lines line) :
    ∃ lines' line', Laid (step s ['\x7d']) (ws ++ [['\x7d']]) lines' line' := by
  have hstep : step s ['\x7d'] = ⟨s.push ('\n' :: (indentation (s.level - 1) ++ '\x7d' :: '\n' ::
      indentation (s.level - 1))), s.level - 1, true, ['\x7d']⟩ := by simp [step]
  have hwords : (lines ++ [line]).flatMap (·.words) = ws := by
    rw [List.flatMap_append, ← h.words]
    simp
  have hproper := proper_closing ((lines ++ [line]).flatMap (·.words))
  rw [hwords, ← h.level] at hproper
  have harranged : Arranged (lines ++ [line]) := .snoc h.arranged h.isOpen.proper (.inl h.marked)
  rw [hstep]
  refine ⟨lines ++ [line] ++ [⟨indentation (s.level - 1) ++ ['\x7d'], [['\x7d']]⟩], ⟨indentation (s.level - 1), []⟩,
    laid_begin (.snoc harranged (by rw [hwords]; exact hproper) (.inr rfl))
      (endsInMark_snoc _ (List.nil_append _).symm (by decide)) ?_ ?_ ?_ rfl ?_⟩
  · rw [List.flatMap_append, hwords]
    rfl
  · rw [h.level, balance_concat]
    rfl
  · rw [List.length_append, List.length_append, h.length, breaks_concat]
    rfl
  · rw [push_reverse, h.written]
    simp

theorem Laid.next (h : Laid s ws lines line) {c : Char} {word : List Char}
    (hword : ∀ d ∈ c :: word, isBlank d = false) :
    ∃ lines' line', Laid (step s (c :: word)) (ws ++ [c :: word]) lines' line' := by
  by_cases hmark : c :: word ∈ marks
  · simp only [marks, List.mem_cons, List.not_mem_nil, or_false] at hmark
    rcases hmark with heq | heq | heq <;> rw [heq]
    · exact h.open
    · exact h.close
    · exact h.end
  · exact h.plain hword hmark

/-! ## Whole texts -/

theorem Laid.run {text : List Char} {ws' : List (List Char)} (hworded : Worded text ws') (h : Laid s ws lines line) :
    ∃ lines' line', Laid (ws'.foldl step s) (ws ++ ws') lines' line' := by
  induction hworded generalizing s ws lines line with
  | nil => exact ⟨lines, line, by rwa [List.append_nil]⟩
  | cons _ hletters _ _ ih =>
    obtain ⟨lines', line', hnext⟩ := h.next hletters
    rw [List.foldl_cons, List.append_cons]
    exact ih hnext

end

theorem Line.Proper.one_line {before : List (List Char)} {line : Line} (h : line.Proper before) :
    '\n' ∉ line.text := fun hmem => by
  rcases h.gaps _ hmem (by decide) with heq | heq <;> exact absurd heq (by decide)

theorem Arranged.one_line {lines : List Line} (h : Arranged lines) : ∀ text ∈ lines.map (·.text), '\n' ∉ text := by
  induction h with
  | nil => exact List.forall_mem_nil _
  | snoc _ hproper _ ih =>
    rw [List.map_append]
    exact List.forall_mem_append.mpr ⟨ih, List.forall_mem_singleton.mpr hproper.one_line⟩

/-- Behind each line but the last one stands a break. -/
theorem intercalate_concat (lines : List Line) (line : Line) :
    ['\n'].intercalate ((lines ++ [line]).map (·.text)) = lines.flatMap (fun l => l.text ++ ['\n']) ++ line.text := by
  induction lines with
  | nil => exact List.append_nil _
  | cons first lines ih =>
    obtain ⟨next, rest, hrest⟩ : ∃ next rest, (lines ++ [line]).map (·.text) = next :: rest := by
      cases lines <;> exact ⟨_, _, rfl⟩
    rw [List.cons_append, List.map_cons, hrest, List.intercalate_cons_cons, ← hrest, ih, List.flatMap_cons]
    simp

/-- The lines of a laid out text: they hold the words of the text in order and are arranged by the marks among them,
and no line is broken but around a mark. -/
theorem pretty_lines (program : String) : ∃ lines : List Line,
    (pretty program).toList.splitOn '\n' = lines.map (·.text) ∧
      lines.flatMap (·.words) = words program.toList ∧ Arranged lines ∧
        lines.length = breaks (words program.toList) + 1 := by
  obtain ⟨lines, line, h⟩ := laid_start.run (words_worded program.toList)
  rw [List.nil_append] at h
  have harranged : Arranged (lines ++ [line]) := .snoc h.arranged h.isOpen.proper (.inl h.marked)
  refine ⟨lines ++ [line], ?_, ?_, harranged, ?_⟩
  · have htext : (pretty program).toList = ['\n'].intercalate ((lines ++ [line]).map (·.text)) := by
      rw [pretty, String.toList_ofList, layWords, h.written, intercalate_concat]
    rw [htext, List.splitOn_intercalate _ harranged.one_line (by simp)]
  · rw [List.flatMap_append, ← h.words]
    simp
  · rw [List.length_append, h.length]
    rfl

/-- A closing brace too many is counted: the next opening brace indents nothing. -/
example : pretty "\x7d a ( b ) \x7b c ;" = "\n\x7d\na(b) \x7b\nc;\n" := by decide +kernel

end TensorFuzz.Layout
