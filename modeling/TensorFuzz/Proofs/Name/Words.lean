import TensorFuzz.Scope
import TensorFuzz.Proofs.Expr.Tokens
import TensorFuzz.Proofs.Name.Free

/-!
# Names from the word tables

A drawn name begins with a word from the first slot of a pattern, and goes on with capitalized words and perhaps a
number. So it is an identifier, and the word it begins with tells what it names: records, functions and the entry
function share no such word.
-/

namespace TensorFuzz.Name

open Check (IsName IsReference isIdentStart isIdentChar isIdentStart_iff isIdentChar_iff isIdentChar_of_isDigit
  isLower_iff isDigit_iff)

/-! ## Letters -/

/-- A lowercase letter is one of twenty-six. -/
theorem eq_ofNat_of_isLower {c : Char} (h : c.isLower = true) : ∃ n < 26, c = Char.ofNat (97 + n) := by
  have hrange := isLower_iff.mp h
  refine ⟨c.toNat - 97, by omega, ?_⟩
  rw [show 97 + (c.toNat - 97) = c.toNat by omega, Char.ofNat_toNat]

theorem isIdentStart_of_isLower {c : Char} (h : c.isLower = true) : isIdentStart c = true :=
  isIdentStart_iff.mpr (.inl (.inr h))

theorem isIdentChar_of_isLower {c : Char} (h : c.isLower = true) : isIdentChar c = true :=
  isIdentChar_iff.mpr (.inl (.inl (.inr h)))

theorem isLower_of_isDigit {c : Char} (h : c.isDigit = true) : c.isLower = false := by
  refine Bool.eq_false_iff.mpr fun hlower => ?_
  have hdigit := isDigit_iff.mp h
  have hlower := isLower_iff.mp hlower
  omega

theorem toUpper_of_isLower {c : Char} (h : c.isLower = true) :
    isIdentChar c.toUpper = true ∧ c.toUpper.isLower = false := by
  obtain ⟨n, hn, rfl⟩ := eq_ofNat_of_isLower h
  revert n
  decide

theorem toList_capitalize {s : String} {c : Char} {cs : List Char} (h : s.toList = c :: cs) :
    s.capitalize.toList = c.toUpper :: cs := by
  have hget : String.Pos.Raw.get s 0 = c := by
    show String.Pos.Raw.utf8GetAux s.toList 0 0 = c
    rw [h]
    exact if_pos rfl
  show (String.ofList (String.Pos.Raw.utf8SetAux (String.Pos.Raw.get s 0).toUpper s.toList 0 0)).toList = _
  rw [hget, h, String.toList_ofList]
  exact if_pos rfl

/-! ## Words -/

/-- A word that names are built of: lowercase letters, at least one. -/
def IsWord (word : String) : Prop := word.toList ≠ [] ∧ ∀ c ∈ word.toList, c.isLower = true

theorem isWord_iff (word : String) :
    (!word.toList.isEmpty && word.toList.all Char.isLower) = true ↔ IsWord word := by
  rw [Bool.and_eq_true, Bool.not_eq_true', List.isEmpty_eq_false_iff, List.all_eq_true, IsWord]

instance (word : String) : Decidable (IsWord word) := decidable_of_iff _ (isWord_iff word)

/-- What follows the first word of a name: characters of identifiers, of which the first is no lowercase letter. -/
def IsTail (rest : List Char) : Prop := (∀ c ∈ rest, isIdentChar c = true) ∧ ∀ c ∈ rest.head?, c.isLower = false

/-- The name begins with one of the words, and a tail follows. -/
def Led (leads : List String) (name : String) : Prop :=
  ∃ lead ∈ leads, ∃ rest, name.toList = lead.toList ++ rest ∧ IsTail rest

theorem IsTail.append {rest rest' : List Char} (h : IsTail rest) (h' : IsTail rest') : IsTail (rest ++ rest') := by
  refine ⟨fun c hc => (List.mem_append.mp hc).elim (h.1 c) (h'.1 c), ?_⟩
  cases rest with
  | nil => exact h'.2
  | cons d ds => exact h.2

theorem isTail_capitalize {s : String} {c : Char} {cs : List Char} (h : s.toList = c :: cs) (hc : c.isLower = true)
    (hcs : ∀ d ∈ cs, isIdentChar d = true) : IsTail s.capitalize.toList := by
  have hupper := toUpper_of_isLower hc
  rw [toList_capitalize h]
  refine ⟨?_, by simp [hupper.2]⟩
  rintro d (_ | ⟨_, hd⟩)
  · exact hupper.1
  · exact hcs d hd

theorem IsWord.exists_cons {word : String} (h : IsWord word) : ∃ c cs, word.toList = c :: cs ∧ c.isLower = true ∧
    ∀ d ∈ cs, isIdentChar d = true := by
  obtain ⟨hne, hlower⟩ := h
  cases hlist : word.toList with
  | nil => exact absurd hlist hne
  | cons c cs =>
    rw [hlist] at hlower
    exact ⟨c, cs, rfl, hlower c List.mem_cons_self,
      fun d hd => isIdentChar_of_isLower (hlower d (List.mem_cons_of_mem _ hd))⟩

theorem isTail_join {words : List String} (h : ∀ word ∈ words, IsWord word) :
    IsTail (String.join (words.map String.capitalize)).toList := by
  induction words with
  | nil => exact ⟨by simp, by simp⟩
  | cons word words ih =>
    obtain ⟨c, cs, hlist, hc, hcs⟩ := (h word List.mem_cons_self).exists_cons
    have hword := isTail_capitalize hlist hc hcs
    have hwords := ih fun other hother => h other (List.mem_cons_of_mem _ hother)
    rw [List.map_cons, String.join_cons, String.toList_append]
    exact hword.append hwords

theorem isTail_number (n : Nat) : IsTail (toString n).toList := by
  have hdigit (c : Char) (hc : c ∈ (toString n).toList) : isIdentChar c = true ∧ c.isLower = false := by
    have hisDigit := Text.isDigit_of_mem_toString hc
    exact ⟨isIdentChar_of_isDigit hisDigit, isLower_of_isDigit hisDigit⟩
  exact ⟨fun c hc => (hdigit c hc).1, fun c hc => (hdigit c (List.mem_of_mem_head? hc)).2⟩

variable {leads leads' : List String} {name name' : String}

theorem Led.self (word : String) : Led [word] word :=
  ⟨word, List.mem_singleton.mpr rfl, [], by simp, by simp, by simp⟩

theorem Led.mono (h : Led leads name) (hsub : leads ⊆ leads') : Led leads' name := by
  obtain ⟨lead, hlead, hname⟩ := h
  exact ⟨lead, hsub hlead, hname⟩

/-- The word that a name begins with is its longest beginning of lowercase letters. -/
theorem takeWhile_led {lead : String} {rest : List Char} (hname : name.toList = lead.toList ++ rest)
    (hlead : IsWord lead) (hrest : IsTail rest) : name.toList.takeWhile Char.isLower = lead.toList := by
  rw [hname, List.takeWhile_append_of_pos hlead.2]
  cases rest with
  | nil => simp
  | cons c cs => simp [hrest.2 c rfl]

theorem Led.ne (h : Led leads name) (h' : Led leads' name') (hwords : ∀ lead ∈ leads ++ leads', IsWord lead)
    (hdisjoint : ∀ lead ∈ leads, lead ∉ leads') : name ≠ name' := by
  rintro rfl
  obtain ⟨lead, hlead, rest, hname, hrest⟩ := h
  obtain ⟨lead', hlead', rest', hname', hrest'⟩ := h'
  have hword := hwords lead (List.mem_append_left _ hlead)
  have hword' := hwords lead' (List.mem_append_right _ hlead')
  have heq : lead.toList = lead'.toList :=
    (takeWhile_led hname hword hrest).symm.trans (takeWhile_led hname' hword' hrest')
  exact hdisjoint lead hlead (String.toList_injective heq ▸ hlead')

theorem Led.isName (h : Led leads name) (hwords : ∀ lead ∈ leads, IsWord lead) : IsName name := by
  obtain ⟨lead, hlead, rest, hname, hrest⟩ := h
  obtain ⟨c, cs, hlist, hc, hcs⟩ := (hwords lead hlead).exists_cons
  refine ⟨c, cs ++ rest, by rw [hname, hlist, List.cons_append], isIdentStart_of_isLower hc, ?_⟩
  exact fun d hd => (List.mem_append.mp hd).elim (hcs d) (hrest.1 d)

/-- A name that begins with none of the words is none of them. -/
theorem Led.not_mem {words : List String} (h : Led leads name) (hleads : ∀ lead ∈ leads, IsWord lead)
    (hwords : ∀ word ∈ words, IsWord word) (hdisjoint : ∀ lead ∈ leads, lead ∉ words) : name ∉ words := fun hmem => by
  have hself : Led words name := (Led.self name).mono (List.cons_subset.mpr ⟨hmem, List.nil_subset _⟩)
  exact h.ne hself (List.forall_mem_append.mpr ⟨hleads, hwords⟩) hdisjoint rfl

theorem Led.isReference (h : Led leads name) (hwords : ∀ lead ∈ leads, IsWord lead) (htrue : "true" ∉ leads)
    (hfalse : "false" ∉ leads) : IsReference name := by
  have hne {word : String} (hword : IsWord word) (hlead : word ∉ leads) : name ≠ word := by
    refine List.ne_of_not_mem_cons (h.not_mem hwords (List.forall_mem_singleton.mpr hword) ?_)
    exact fun lead hmem hsame => hlead (List.mem_singleton.mp hsame ▸ hmem)
  exact ⟨h.isName hwords, hne (by decide) htrue, hne (by decide) hfalse⟩

/-! ## Tables -/

/-- The words that the names of a table begin with. -/
def firstWords (table : List Pattern) : List String := table.flatMap (·.headD [])

/-- The words that the names of functions begin with. -/
def functionWords : List String := firstWords procedures ++ verbs

/-- The patterns have slots, and the slots have words. -/
def Wordy (table : List Pattern) : Prop :=
  ∀ pattern ∈ table, pattern ≠ [] ∧ ∀ slot ∈ pattern, slot ≠ [] ∧ ∀ word ∈ slot, IsWord word

instance (table : List Pattern) : Decidable (Wordy table) := inferInstanceAs (Decidable (∀ _ ∈ _, _))

theorem patterns_wordy (ty : Ty) : patterns ty ≠ [] ∧ Wordy (patterns ty) := by
  cases ty <;> (rw [patterns]; decide)

theorem not_firstWords (ty : Ty) : "true" ∉ firstWords (patterns ty) ∧ "false" ∉ firstWords (patterns ty) := by
  cases ty <;> (rw [patterns]; decide)

theorem Wordy.firstWords {table : List Pattern} (h : Wordy table) : ∀ lead ∈ firstWords table, IsWord lead := by
  intro lead hlead
  obtain ⟨pattern, hpattern, hlead⟩ := List.mem_flatMap.mp hlead
  obtain ⟨hne, hslots⟩ := h pattern hpattern
  cases pattern with
  | nil => exact absurd rfl hne
  | cons slot slots => exact (hslots slot List.mem_cons_self).2 lead hlead

theorem isWord_functionWords : ∀ lead ∈ functionWords, IsWord lead := by decide

variable {σ : Type} [RandomSource σ]

theorem drawWords_yields {pattern : Pattern} (h : ∀ slot ∈ pattern, slot ≠ [] ∧ ∀ word ∈ slot, IsWord word) :
    (drawWords pattern : Draw σ (List String)).Yields fun words => words.head?.all (· ∈ pattern.headD []) ∧
      words.length = pattern.length ∧ ∀ word ∈ words, IsWord word := by
  induction pattern with
  | nil => exact .pure (by simp)
  | cons slot slots ih =>
    obtain ⟨hne, hwords⟩ := h slot List.mem_cons_self
    refine (Draw.pick?_yields slot).bind fun found hfound => ?_
    refine (ih fun other hother => h other (List.mem_cons_of_mem _ hother)).bind fun words hothers => .pure ?_
    cases found with
    | none => exact absurd (hfound.1.mp rfl) hne
    | some word =>
      have hmem := hfound.2 word rfl
      refine ⟨by simpa using hmem, by simp [hothers.2.1], ?_⟩
      rintro other (_ | ⟨_, hother⟩)
      · exact hwords word hmem
      · exact hothers.2.2 other hother

/-- The name is built of words in camel case, and begins with one of the given ones. -/
def CamelCased (leads : List String) (name : String) : Prop :=
  ∃ lead ∈ leads, ∃ words, IsWord lead ∧ (∀ word ∈ words, IsWord word) ∧ name = camelCase (lead :: words)

theorem CamelCased.mono (h : CamelCased leads name) (hsub : leads ⊆ leads') : CamelCased leads' name := by
  obtain ⟨lead, hlead, hname⟩ := h
  exact ⟨lead, hsub hlead, hname⟩

theorem CamelCased.led (h : CamelCased leads name) : Led leads name := by
  obtain ⟨lead, hlead, words, -, hwords, rfl⟩ := h
  exact ⟨lead, hlead, _, String.toList_append, isTail_join hwords⟩

/-- A number behind a name is part of its tail. -/
theorem Numbered.led (h : Numbered (CamelCased leads) name) : Led leads name := by
  obtain ⟨stem, hstem, rfl | ⟨n, rfl⟩⟩ := h
  · exact hstem.led
  · obtain ⟨lead, hlead, rest, hname, hrest⟩ := hstem.led
    refine ⟨lead, hlead, rest ++ (toString n).toList, ?_, hrest.append (isTail_number n)⟩
    rw [String.toList_append, hname, List.append_assoc]

/-- A word before a name is one more word of it. -/
theorem CamelCased.cons (h : CamelCased leads name) {word : String} (hword : IsWord word) :
    CamelCased [word] (word ++ name.capitalize) := by
  obtain ⟨lead, -, words, hlead, hwords, rfl⟩ := h
  obtain ⟨c, cs, hlist, -⟩ := hlead.exists_cons
  have hcapital : (camelCase (lead :: words)).capitalize = String.join ((lead :: words).map String.capitalize) := by
    refine String.toList_injective ?_
    have hname : (camelCase (lead :: words)).toList =
        c :: (cs ++ (String.join (words.map String.capitalize)).toList) := by
      rw [camelCase, String.toList_append, hlist, List.cons_append]
    rw [toList_capitalize hname, List.map_cons, String.join_cons, String.toList_append, toList_capitalize hlist,
      List.cons_append]
  exact ⟨word, List.mem_singleton.mpr rfl, lead :: words, hword, List.forall_mem_cons.mpr ⟨hlead, hwords⟩,
    by rw [hcapital]; rfl⟩

theorem drawFrom_yields {table : List Pattern} (hne : table ≠ []) (h : Wordy table) :
    (drawFrom table : Draw σ String).Yields (CamelCased (firstWords table)) := by
  refine (Draw.pick?_yields table).bind fun found hfound => ?_
  cases found with
  | none => exact absurd (hfound.1.mp rfl) hne
  | some pattern =>
    have hpattern := hfound.2 pattern rfl
    obtain ⟨hslots, hwords⟩ := h pattern hpattern
    refine (drawWords_yields hwords).bind fun words hchosen => .pure ?_
    obtain ⟨hhead, hlength, hall⟩ := hchosen
    cases words with
    | nil => exact absurd (List.length_eq_zero_iff.mp hlength.symm) hslots
    | cons word words =>
      obtain ⟨hword, hwords⟩ := List.forall_mem_cons.mp hall
      exact ⟨word, List.mem_flatMap.mpr ⟨pattern, hpattern, by simpa using hhead⟩, words, hword, hwords, rfl⟩

theorem drawVariable_yields (ty : Ty) :
    (drawVariable ty : Draw σ String).Yields (CamelCased (firstWords (patterns ty))) :=
  drawFrom_yields (patterns_wordy ty).1 (patterns_wordy ty).2

theorem drawFunction_yields (ty : Ty) : (drawFunction ty : Draw σ String).Yields (CamelCased functionWords) := by
  refine .ite (fun _ => ?_) fun _ => ?_
  · exact (drawFrom_yields (by decide) (by decide)).mono fun name hname => hname.mono (List.subset_append_left _ _)
  · refine (Draw.pick?_yields verbs).bind fun found hfound => ?_
    refine (drawVariable_yields ty).bind fun name hname => .pure ?_
    cases found with
    | none => exact absurd (hfound.1.mp rfl) (by decide)
    | some verb =>
      have hverb : verb ∈ functionWords := List.mem_append_right _ (hfound.2 verb rfl)
      exact (hname.cons (isWord_functionWords verb hverb)).mono (List.cons_subset.mpr ⟨hverb, List.nil_subset _⟩)

/-! ## Free names -/

theorem isReference_of_variable {ty : Ty} (h : Led (firstWords (patterns ty)) name) : IsReference name :=
  h.isReference (patterns_wordy ty).2.firstWords (not_firstWords ty).1 (not_firstWords ty).2

theorem isReference_of_function (h : Led functionWords name) : IsReference name :=
  h.isReference isWord_functionWords (by decide) (by decide)

end TensorFuzz.Name

namespace TensorFuzz

variable {σ : Type} [RandomSource σ]

open Name

theorem Scope.freeName_yields (scope : Scope) (ty : Ty) : (scope.freeName ty : Draw σ String).Yields fun name =>
    name ∉ scope.currentNames ∧ Numbered (CamelCased (firstWords (patterns ty))) name :=
  unique_yields (drawVariable_yields ty) _

theorem Scope.freeFunctionName_yields (scope : Scope) (ty : Ty) :
    (scope.freeFunctionName ty : Draw σ String).Yields fun name =>
      name ∉ scope.currentNames ∧ Numbered (CamelCased functionWords) name :=
  unique_yields (drawFunction_yields ty) _

end TensorFuzz
