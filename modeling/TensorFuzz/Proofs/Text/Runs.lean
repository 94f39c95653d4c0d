import TensorFuzz.Text.Blank
import TensorFuzz.Proofs.Text.Takes

/-!
# Runs of characters

The maximal runs of characters with a property. A text that is put together where no run goes on has the runs of its
parts, so the runs of a long text are found piece by piece. The words of a text are its runs of characters that are not
blank.
-/

namespace TensorFuzz.Text

/-- A run that has ended, unless it has no characters. -/
def ended (run : List Char) : List (List Char) := if run = [] then [] else [run]

/-- The runs of a text, the first of which goes on with the characters read before. -/
def runsAfter (p : Char → Bool) (run : List Char) : List Char → List (List Char)
  | [] => ended run
  | c :: rest => if p c then runsAfter p (run ++ [c]) rest else ended run ++ runsAfter p [] rest

/-- The maximal runs of characters with the property, in order. -/
def runs (p : Char → Bool) (text : List Char) : List (List Char) := runsAfter p [] text

/-- No run goes on behind the text. -/
def Closes (p : Char → Bool) (text : List Char) : Prop := ∀ c ∈ text.getLast?, p c = false

variable {p q : Char → Bool} {run text front rest word : List Char} {c : Char}

theorem ended_of_ne_nil (h : run ≠ []) : ended run = [run] := if_neg h

theorem words_eq_runs (text : List Char) : words text = runs (!isBlank ·) text := by
  have hended (done : List (List Char)) (letters : List Char) :
      (endWord done letters).reverse = done.reverse ++ ended letters.reverse := by
    cases letters with
    | nil => exact (List.append_nil _).symm
    | cons c letters => rw [ended_of_ne_nil (by simp)]; exact List.reverse_cons
  have hafter (done : List (List Char)) (letters : List Char) :
      wordsAfter done letters text = done.reverse ++ runsAfter (!isBlank ·) letters.reverse text := by
    induction text generalizing done letters with
    | nil => exact hended done letters
    | cons c rest ih =>
      cases hblank : isBlank c with
      | true =>
        rw [wordsAfter, runsAfter, if_pos hblank, if_neg (by simp [hblank]), ih, hended, List.append_assoc]
        rfl
      | false =>
        rw [wordsAfter, runsAfter, if_neg (by simp [hblank]), if_pos (by simp [hblank]), ih, List.reverse_cons]
  exact hafter [] []

/-! ## Runs of parts -/

theorem runsAfter_of_stops (h : Stops p rest) : runsAfter p run rest = ended run ++ runs p rest := by
  cases rest with
  | nil => exact (List.append_nil _).symm
  | cons c rest =>
    have hc : ¬ p c = true := by simpa using h c rfl
    rw [runs, runsAfter, runsAfter, if_neg hc, if_neg hc]
    rfl

/-- The second part begins with no run. -/
theorem runs_append_of_stops (h : Stops p rest) : runs p (front ++ rest) = runs p front ++ runs p rest := by
  have hafter (run : List Char) : runsAfter p run (front ++ rest) = runsAfter p run front ++ runs p rest := by
    induction front generalizing run with
    | nil => exact runsAfter_of_stops h
    | cons c front ih =>
      rw [List.cons_append, runsAfter, runsAfter]
      split
      · exact ih _
      · rw [ih, List.append_assoc]
  exact hafter []

/-- No run goes on across a character outside runs. -/
theorem runs_around (hc : p c = false) : runs p (front ++ c :: rest) = runs p front ++ runs p rest := by
  have hstops : Stops p (c :: rest) := by rintro _ ⟨⟩; exact hc
  have hskip : runs p (c :: rest) = runs p rest := if_neg (by simp [hc])
  rw [runs_append_of_stops hstops, hskip]

/-- The first part ends with no run. -/
theorem runs_append_of_closes (h : Closes p front) : runs p (front ++ rest) = runs p front ++ runs p rest := by
  rcases List.eq_nil_or_concat front with rfl | ⟨front, c, rfl⟩
  · rfl
  · rw [List.concat_eq_append] at h ⊢
    have hc : p c = false := h c List.getLast?_concat
    have hfront : runs p (front ++ [c]) = runs p front := (runs_around hc).trans (List.append_nil _)
    rw [hfront, List.append_assoc, List.singleton_append, runs_around hc]

theorem runs_word (hne : word ≠ []) (h : ∀ c ∈ word, p c = true) : runs p word = [word] := by
  have hafter (run : List Char) : runsAfter p run word = ended (run ++ word) := by
    clear hne
    induction word generalizing run with
    | nil => rw [List.append_nil]; rfl
    | cons c word ih =>
      obtain ⟨hc, hword⟩ := List.forall_mem_cons.mp h
      rw [runsAfter, if_pos hc, ih hword, List.append_assoc]
      rfl
  exact (hafter []).trans (ended_of_ne_nil hne)

theorem Closes.cons (hc : p c = false) (h : Closes p rest) : Closes p (c :: rest) := by
  cases rest with
  | nil => rintro _ ⟨⟩; exact hc
  | cons d rest => rwa [Closes, List.getLast?_cons_cons]

theorem Closes.append (h : Closes p rest) (hne : rest ≠ []) : Closes p (front ++ rest) := by
  intro c hc
  rw [List.getLast?_append, List.getLast?_eq_some_getLast hne] at hc
  exact h c (by rwa [List.getLast?_eq_some_getLast hne])

/-- The word stands in the text with no run in front of it or behind it. -/
def StandsIn (p : Char → Bool) (word text : List Char) : Prop :=
  word ≠ [] ∧ ∃ front rest, text = front ++ word ++ rest ∧ Closes p front ∧ Stops p rest

theorem standsIn_of_mem_ended (h : word ∈ ended run) (hrest : Stops p rest) : StandsIn p word (run ++ rest) := by
  by_cases hne : run = []
  · rw [ended, if_pos hne] at h
    cases h
  · obtain rfl := List.mem_singleton.mp (ended_of_ne_nil hne ▸ h)
    exact ⟨hne, [], rest, rfl, nofun, hrest⟩

theorem standsIn_of_mem_runsAfter (h : word ∈ runsAfter p run text) : StandsIn p word (run ++ text) := by
  induction text generalizing run with
  | nil => exact standsIn_of_mem_ended h nofun
  | cons c text ih =>
    rw [runsAfter] at h
    split at h
    · have hword := ih h
      rwa [List.append_assoc] at hword
    · next hc =>
      have hc : p c = false := by simpa using hc
      rcases List.mem_append.mp h with h | h
      · exact standsIn_of_mem_ended h (by rintro _ ⟨⟩; exact hc)
      · obtain ⟨hne, front, rest, heq, hfront, hrest⟩ := ih h
        refine ⟨hne, run ++ c :: front, rest, ?_, (hfront.cons hc).append (List.cons_ne_nil _ _), hrest⟩
        rw [List.nil_append] at heq
        rw [heq, List.append_assoc, List.append_assoc, List.append_assoc]
        rfl

theorem standsIn_of_mem_runs (h : word ∈ runs p text) : StandsIn p word text := standsIn_of_mem_runsAfter h

theorem mem_runs_of_standsIn (h : StandsIn p word text) (hword : ∀ c ∈ word, p c = true) : word ∈ runs p text := by
  obtain ⟨hne, front, rest, rfl, hfront, hrest⟩ := h
  rw [runs_append_of_stops hrest, runs_append_of_closes hfront, runs_word hne hword]
  exact List.mem_append_left _ (List.mem_append_right _ (List.mem_singleton.mpr rfl))

/-- A run of characters that have a stronger property as well is a run for that property. -/
theorem mem_runs_of_forall (himp : ∀ c, p c = false → q c = false) (h : word ∈ runs p text)
    (hword : ∀ c ∈ word, q c = true) : word ∈ runs q text := by
  obtain ⟨hne, front, rest, heq, hfront, hrest⟩ := standsIn_of_mem_runs h
  have hstands : StandsIn q word text :=
    ⟨hne, front, rest, heq, fun c hc => himp c (hfront c hc), fun c hc => himp c (hrest c hc)⟩
  exact mem_runs_of_standsIn hstands hword

theorem ended_ne_nil_append (hne : run ≠ []) (rest : List (List Char)) : ended run ++ rest ≠ [] := by
  rw [ended_of_ne_nil hne]
  exact List.cons_ne_nil _ _

theorem runsAfter_eq_nil (h : runsAfter p run text = []) : run = [] ∧ ∀ c ∈ text, p c = false := by
  induction text generalizing run with
  | nil => exact ⟨Decidable.byContradiction fun hne => ended_ne_nil_append hne [] (by rwa [List.append_nil]), nofun⟩
  | cons c text ih =>
    rw [runsAfter] at h
    split at h
    · exact absurd (ih h).1 (by simp)
    · next hc =>
      have htext := (ih (List.append_eq_nil_iff.mp h).2).2
      exact ⟨Decidable.byContradiction fun hne => ended_ne_nil_append hne _ h,
        List.forall_mem_cons.mpr ⟨by simpa using hc, htext⟩⟩

theorem forall_of_runs_eq_nil (h : runs p text = []) : ∀ c ∈ text, p c = false := (runsAfter_eq_nil h).2

/-- The text has a run at its end. -/
def EndsInRun (p : Char → Bool) (text : List Char) : Prop := ∃ c ∈ text.getLast?, p c = true

/-- Two beginnings of a text that end where a run ends are the same if they have the same runs. -/
theorem eq_of_runs_eq {front' rest' : List Char} (heq : front ++ rest = front' ++ rest') (hfront : EndsInRun p front)
    (hrest : Stops p rest) (hfront' : EndsInRun p front') (hrest' : Stops p rest') (hruns : runs p front = runs p front') :
    front = front' := by
  -- The longer one goes on behind the shorter one with a character outside runs, and ends in one more run.
  have hlonger {front rest front' between : List Char} (hrest : Stops p (between ++ rest)) (hfront' : EndsInRun p front')
      (hruns : runs p front = runs p front') (hbetween : front' = front ++ between) : front = front' := by
    subst hbetween
    cases between with
    | nil => exact (List.append_nil front).symm
    | cons c between =>
      have hstops : Stops p (c :: between) := by rintro _ ⟨⟩; exact hrest c rfl
      rw [runs_append_of_stops hstops] at hruns
      have hnone := forall_of_runs_eq_nil (List.append_right_eq_self.mp hruns.symm)
      obtain ⟨d, hd, hpd⟩ := hfront'
      have hmem : d ∈ c :: between := by
        rw [List.getLast?_append, List.getLast?_eq_some_getLast (List.cons_ne_nil c between)] at hd
        exact List.mem_of_getLast? ((List.getLast?_eq_some_getLast _).trans hd)
      exact Bool.noConfusion ((hnone d hmem).symm.trans hpd)
  rcases List.append_eq_append_iff.mp heq with ⟨between, hbetween, rfl⟩ | ⟨between, hbetween, rfl⟩
  · exact hlonger hrest hfront' hruns hbetween
  · exact (hlonger hrest' hfront hruns.symm hbetween).symm

theorem subset_of_mem_runs (h : word ∈ runs p text) : word ⊆ text := by
  obtain ⟨-, front, rest, rfl, -⟩ := standsIn_of_mem_runs h
  exact fun c hc => List.mem_append_left _ (List.mem_append_right _ hc)

end TensorFuzz.Text
