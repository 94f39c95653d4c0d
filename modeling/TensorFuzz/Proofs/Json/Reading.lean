import TensorFuzz.Proofs.Json.Scalars

/-!
# Reading values

What a reader takes of a value it takes of every text of the value. An object is read to the end of a chain of states:
each member that is known leads from the state of the members seen before to the state that has seen it as well, and
other members leave the state as it is.
-/

namespace TensorFuzz.Json

variable {α β : Type} {gap text rest : List Char} {c : Char} {v : Value} {a : α} {b : β} {n fuel : Nat}

/-- The reader takes the value off the front of a text, however it is spelled and whatever gap is in front, to the given
result. -/
def Takes (read : Reader α) (v : Value) (a : α) : Prop :=
  ∀ gap text rest, IsGap gap → Spells text v → Ended rest → read (gap ++ (text ++ rest)) = .ok (a, rest)

theorem Takes.at_start {read : Reader α} (h : Takes read v a) (htext : Spells text v) (hrest : Ended rest) :
    read (text ++ rest) = .ok (a, rest) := h [] text rest isGap_nil htext hrest

theorem Takes.map {read : Reader α} (h : Takes read v a) (f : α → β) : Takes (do return f (← read)) v (f a) :=
  fun gap text rest hgap htext hrest => by
    rw [bind_of_ok (h gap text rest hgap htext hrest)]
    rfl

/-! ## Scalars -/

theorem demand_quoted {content : String} (hgap : IsGap gap) (h : Quoted text content) (rest : List Char) :
    demand (gap ++ (text ++ rest)) = .ok ('"', text ++ rest) := by
  cases h
  exact demand_run hgap (by decide) _

theorem isBlank_of_isDigit (h : c.isDigit = true) : isBlank c = false := by
  refine Bool.eq_false_iff.mpr fun hblank => ?_
  simp only [isBlank, Bool.or_eq_true, beq_iff_eq] at hblank
  rcases hblank with ((rfl | rfl) | rfl) | rfl <;> cases h

theorem natural_takes (hn : n < limit64) : Takes natural (.integer n) n := by
  intro gap text rest hgap htext hrest
  cases htext
  obtain ⟨d, ds, hdigits, hd⟩ := exists_digit n
  have hdemand : demand (gap ++ ((toString n).toList ++ rest)) = .ok (d, (toString n).toList ++ rest) := by
    rw [hdigits]
    exact demand_run hgap (isBlank_of_isDigit hd) _
  show natural (gap ++ ((toString n).toList ++ rest)) = _
  rw [natural, bind_of_ok hdemand, if_pos (.inr hd), bind_of_ok (number_run hn hrest)]
  rfl

theorem string_takes (content : String) : Takes string (.string content) content := by
  intro gap text rest hgap htext hrest
  cases htext with | string htext => ?_
  rw [string, bind_of_ok (demand_quoted hgap htext rest), if_pos rfl]
  exact quoted_run htext rest

theorem exists_head (n : Int) : ∃ c cs, (toString n).toList = c :: cs ∧ (c = '-' ∨ c.isDigit = true) := by
  cases n with
  | ofNat n =>
    obtain ⟨d, ds, hdigits, hd⟩ := exists_digit n
    exact ⟨d, ds, hdigits, .inr hd⟩
  | negSucc n => exact ⟨'-', (toString (n + 1)).toList, by show ("-" ++ toString (n + 1)).toList = _; simp, .inl rfl⟩

/-- A value without parts is skipped, however deep the reader may go. -/
theorem skipValue_takes (h : v.IsScalar) (fuel : Nat) : Takes (skipValue (fuel + 1)) v () := by
  intro gap text rest hgap htext hrest
  rw [skipValue]
  cases htext with
  | null =>
    have hdemand : demand (gap ++ (['n', 'u', 'l', 'l'] ++ rest)) = .ok ('n', _) := demand_run hgap (by decide) _
    rw [bind_of_ok hdemand]
    exact word_run ['u', 'l', 'l'] rest
  | boolean b =>
    cases b with
    | false =>
      have hdemand : demand (gap ++ (['f', 'a', 'l', 's', 'e'] ++ rest)) = .ok ('f', _) := demand_run hgap (by decide) _
      show (demand >>= _) (gap ++ (['f', 'a', 'l', 's', 'e'] ++ rest)) = _
      rw [bind_of_ok hdemand]
      exact word_run ['a', 'l', 's', 'e'] rest
    | true =>
      have hdemand : demand (gap ++ (['t', 'r', 'u', 'e'] ++ rest)) = .ok ('t', _) := demand_run hgap (by decide) _
      show (demand >>= _) (gap ++ (['t', 'r', 'u', 'e'] ++ rest)) = _
      rw [bind_of_ok hdemand]
      exact word_run ['r', 'u', 'e'] rest
  | string htext =>
    rw [bind_of_ok (demand_quoted hgap htext rest)]
    exact skipQuoted_run htext rest
  | integer n =>
    obtain ⟨c, cs, hdigits, hc⟩ := exists_head n
    have hblank : isBlank c = false := by
      rcases hc with rfl | hc
      · rfl
      · exact isBlank_of_isDigit hc
    have hdemand : demand (gap ++ ((toString n).toList ++ rest)) = .ok (c, (toString n).toList ++ rest) := by
      rw [hdigits]
      exact demand_run hgap hblank _
    rw [bind_of_ok hdemand]
    split <;> first | (exact absurd hc (by decide)) | skip
    rw [if_pos hc]
    exact skipNumber_run n hrest
  | list _ | object _ => exact h.elim

/-! ## Pairs -/

theorem ended_gap (hgap : IsGap gap) (hc : c ∈ [',', ']', '\x7d']) (rest : List Char) : Ended (gap ++ c :: rest) := by
  cases gap with
  | nil => rintro _ ⟨⟩; exact .inr hc
  | cons b gap => rintro _ ⟨⟩; exact .inl (hgap b List.mem_cons_self)

theorem ended_of_isGap (hgap : IsGap gap) : Ended gap := fun c hc => .inl (hgap c (List.mem_of_head? hc))

theorem Spells.exists_head (h : Spells text v) : ∃ c cs, text = c :: cs ∧ isBlank c = false ∧ c ≠ ']' := by
  cases h with
  | null => exact ⟨_, _, rfl, by decide, by decide⟩
  | boolean b => cases b <;> exact ⟨_, _, rfl, by decide, by decide⟩
  | integer n =>
    obtain ⟨c, cs, htext, rfl | hc⟩ := Json.exists_head n
    · exact ⟨'-', cs, htext, by decide, by decide⟩
    · exact ⟨c, cs, htext, isBlank_of_isDigit hc, by rintro rfl; cases hc⟩
  | string h => cases h with | quotes _ => exact ⟨_, _, rfl, by decide, by decide⟩
  | list h => cases h with | none _ | some _ => exact ⟨_, _, rfl, by decide, by decide⟩
  | object h => cases h with | none _ | some _ => exact ⟨_, _, rfl, by decide, by decide⟩

theorem demand_value (hgap : IsGap gap) (h : Spells text v) (rest : List Char) :
    ∃ c, c ≠ ']' ∧ demand (gap ++ (text ++ rest)) = .ok (c, text ++ rest) := by
  obtain ⟨c, cs, rfl, hblank, hc⟩ := h.exists_head
  exact ⟨c, hc, demand_run hgap hblank _⟩

theorem item_first {read : Reader α} (h : Takes read v a) (hgap : IsGap gap) (htext : Spells text v) (hrest : Ended rest) :
    item? true read (gap ++ (text ++ rest)) = .ok (some a, rest) := by
  obtain ⟨c, hc, hdemand⟩ := demand_value hgap htext rest
  have hitem : hasItem true (gap ++ (text ++ rest)) = .ok (true, text ++ rest) := by
    rw [hasItem, bind_of_ok hdemand, if_neg hc, if_pos rfl]
    rfl
  rw [item?, bind_of_ok hitem, if_pos rfl, bind_of_ok (h.at_start htext hrest)]
  rfl

theorem item_next {read : Reader α} (h : Takes read v a) {gap' : List Char} (hgap' : IsGap gap') (hgap : IsGap gap)
    (htext : Spells text v) (hrest : Ended rest) :
    item? false read (gap' ++ ',' :: (gap ++ (text ++ rest))) = .ok (some a, rest) := by
  obtain ⟨c, hc, hdemand⟩ := demand_value hgap htext rest
  have hitem : hasItem false (gap' ++ ',' :: (gap ++ (text ++ rest))) = .ok (true, text ++ rest) := by
    have hskip : skip (',' :: (gap ++ (text ++ rest))) = .ok ((), gap ++ (text ++ rest)) := rfl
    rw [hasItem, bind_of_ok (demand_run hgap' (by decide) _), if_neg (by decide), if_neg (by decide), if_pos rfl,
      bind_of_ok hskip, bind_of_ok hdemand, if_neg hc]
    rfl
  rw [item?, bind_of_ok hitem, if_pos rfl, bind_of_ok (h.at_start htext hrest)]
  rfl

theorem endList_run (hgap : IsGap gap) (rest : List Char) : endList (gap ++ ']' :: rest) = .ok ((), rest) := by
  rw [endList, bind_of_ok (demand_run hgap (by decide) _), if_pos rfl]
  rfl

theorem pair_takes {read : Reader α} {v' : Value} {a' : α} (h : Takes read v a) (h' : Takes read v' a') :
    Takes (pair read) (.list [v, v']) (a, a') := by
  intro gap text rest hgap htext hrest
  cases htext with | list htext => ?_
  cases htext with | some htext => ?_
  cases htext with | @more gap₁ text₁ gap₁' _ _ _ hgap₁ htext₁ hgap₁' hothers => ?_
  cases hothers with | more _ _ _ hnone => cases hnone | @one gap₂ text₂ gap₂' _ hgap₂ htext₂ hgap₂' => ?_
  simp only [List.append_assoc, List.cons_append, List.nil_append]
  have hskip (text : List Char) : skip ('[' :: text) = .ok ((), text) := rfl
  rw [pair, bind_of_ok (demand_run hgap (by decide) _), if_pos rfl, bind_of_ok (hskip _),
    bind_of_ok (item_first h hgap₁ htext₁ (ended_gap hgap₁' (by decide) _))]
  dsimp only
  rw [bind_of_ok (item_next h' hgap₁' hgap₂ htext₂ (ended_gap hgap₂' (by decide) _))]
  dsimp only
  rw [bind_of_ok (endList_run hgap₂' rest)]
  rfl

/-! ## Objects -/

/-- What stands in front of a member: nothing before the first one, a comma before the others. -/
inductive Lead : Bool → List Char → Prop
  | first : Lead true []
  | comma {gap : List Char} : IsGap gap → Lead false (gap ++ [','])

section
variable {lead key : List Char} {name : String} {isFirst : Bool}

theorem key_run (hlead : Lead isFirst lead) (hgap : IsGap gap) (hkey : Quoted key name) (rest : List Char) :
    key? isFirst (lead ++ (gap ++ (key ++ rest))) = .ok (some name, rest) := by
  rw [key?]
  cases hlead with
  | first =>
    rw [List.nil_append, bind_of_ok (demand_quoted hgap hkey rest), if_neg (by decide), if_pos rfl, if_pos rfl,
      bind_of_ok (quoted_run hkey rest)]
    rfl
  | @comma gap' hgap' =>
    have hskip (text : List Char) : skip (',' :: text) = .ok ((), text) := rfl
    rw [List.append_assoc, List.singleton_append, bind_of_ok (demand_run hgap' (by decide) _), if_neg (by decide),
      if_neg (by decide), if_pos rfl]
    dsimp only
    rw [bind_of_ok (hskip _), bind_of_ok (demand_quoted hgap hkey rest), if_pos rfl, bind_of_ok (quoted_run hkey rest)]
    rfl

theorem key_end (isFirst : Bool) (hgap : IsGap gap) (rest : List Char) :
    key? isFirst (gap ++ '\x7d' :: rest) = .ok (none, '\x7d' :: rest) := by
  rw [key?, bind_of_ok (demand_run hgap (by decide) _), if_pos rfl]
  rfl

theorem colon_run (hgap : IsGap gap) (rest : List Char) : colon (gap ++ ':' :: rest) = .ok ((), rest) := by
  rw [colon, bind_of_ok (demand_run hgap (by decide) _), if_pos rfl]
  rfl

end

section
variable {known : List (Member α)} {state : List String → α} {seen : List String} {entry : String × Value}
  {entries : List (String × Value)} {lead : List Char} {isFirst : Bool}

/-- A member leads from state to state: one that is known to the state that has seen it as well, while others are of a
kind that is skipped. -/
structure Follows (known : List (Member α)) (state : List String → α) (entry : String × Value) : Prop where
  taken : ∀ member ∈ known, member.name = entry.1 →
    ∀ seen, Takes (member.read (state seen)) entry.2 (state (entry.1 :: seen))
  skipped : entry.1 ∉ known.map (·.name) → entry.2.IsScalar

/-- The names of known members, in the order of the object. -/
def givenNames (known : List (Member α)) (entries : List (String × Value)) : List String :=
  (entries.map (·.1)).filter (· ∈ known.map (·.name))

theorem exists_known {name : String} (h : name ∈ known.map (·.name)) :
    ∃ member ∈ known, known.find? (·.name == name) = some member ∧ member.name = name := by
  have hsome : (known.find? (·.name == name)).isSome = true := by
    obtain ⟨member, hmember, hname⟩ := List.mem_map.mp h
    exact List.find?_isSome.mpr ⟨member, hmember, beq_iff_eq.mpr hname⟩
  obtain ⟨member, hfind⟩ := Option.isSome_iff_exists.mp hsome
  have hname := List.find?_some hfind
  exact ⟨member, List.mem_of_find?_eq_some hfind, hfind, beq_iff_eq.mp hname⟩

theorem members_known (h : Follows known state entry) (hknown : entry.1 ∈ known.map (·.name)) (hseen : entry.1 ∉ seen)
    (hlead : Lead isFirst lead) (hgap : IsGap gap) (htext : Named Spells text entry) (hrest : Ended rest) (fuel : Nat) :
    members known (fuel + 1) isFirst seen (state seen) (lead ++ (gap ++ (text ++ rest))) =
      members known fuel false (entry.1 :: seen) (state (entry.1 :: seen)) rest := by
  obtain ⟨member, hmember, hfind, hname⟩ := exists_known hknown
  cases htext with | @colon key gap' gap'' text name v hkey hgap' hgap'' htext => ?_
  simp only [List.append_assoc, List.cons_append]
  rw [members, bind_of_ok (key_run hlead hgap hkey _)]
  dsimp only
  rw [hfind]
  dsimp only
  have htaken := h.taken member hmember hname seen gap'' text rest hgap'' htext hrest
  rw [if_neg hseen, bind_of_ok (colon_run hgap' _), bind_of_ok htaken]

theorem members_unknown (h : Follows known state entry) (hknown : entry.1 ∉ known.map (·.name))
    (hlead : Lead isFirst lead) (hgap : IsGap gap) (htext : Named Spells text entry) (hrest : Ended rest) (fuel : Nat)
    (a : α) :
    members known (fuel + 1) isFirst seen a (lead ++ (gap ++ (text ++ rest))) = members known fuel false seen a rest := by
  have hfind : known.find? (·.name == entry.1) = none :=
    List.find?_eq_none.mpr fun member hmember hname =>
      hknown (List.mem_map.mpr ⟨member, hmember, beq_iff_eq.mp hname⟩)
  cases htext with | @colon key gap' gap'' text name v hkey hgap' hgap'' htext => ?_
  simp only [List.append_assoc, List.cons_append]
  rw [members, bind_of_ok (key_run hlead hgap hkey _)]
  dsimp only
  rw [hfind]
  dsimp only
  rw [bind_of_ok (colon_run hgap' _), get_bind,
    bind_of_ok (skipValue_takes (h.skipped hknown) _ gap'' text rest hgap'' htext hrest)]

theorem givenNames_of_known (h : entry.1 ∈ known.map (·.name)) (entries : List (String × Value)) :
    givenNames known (entry :: entries) = entry.1 :: givenNames known entries := List.filter_cons_of_pos (decide_eq_true h)

theorem givenNames_of_unknown (h : entry.1 ∉ known.map (·.name)) (entries : List (String × Value)) :
    givenNames known (entry :: entries) = givenNames known entries := List.filter_cons_of_neg (by simpa using h)

theorem members_end (hgap : IsGap gap) (fuel : Nat) (isFirst : Bool) (seen : List String) (a : α) (rest : List Char) :
    members known (fuel + 1) isFirst seen a (gap ++ '\x7d' :: rest) = .ok (a, '\x7d' :: rest) := by
  rw [members, bind_of_ok (key_end isFirst hgap rest)]
  rfl

/-- The state that an object leads to has seen the known members in it. -/
theorem members_run (hlisted : Listed (Named Spells) text entries) (hfollows : ∀ entry ∈ entries, Follows known state entry)
    (hnodup : (givenNames known entries).Nodup) (hseen : ∀ name ∈ givenNames known entries, name ∉ seen)
    (hlead : Lead isFirst lead) (hfuel : entries.length < fuel) (rest : List Char) :
    members known fuel isFirst seen (state seen) (lead ++ (text ++ '\x7d' :: rest)) =
      .ok (state ((givenNames known entries).reverse ++ seen), '\x7d' :: rest) := by
  induction hlisted generalizing fuel isFirst lead seen with
  | @one gap text gap' entry hgap htext hgap' =>
    obtain ⟨fuel, rfl⟩ : ∃ n, fuel = n + 2 := ⟨fuel - 2, by rw [List.length_singleton] at hfuel; omega⟩
    have hentry := hfollows entry List.mem_cons_self
    have hended := ended_gap hgap' (by decide : '\x7d' ∈ [',', ']', '\x7d']) rest
    simp only [List.append_assoc]
    by_cases hknown : entry.1 ∈ known.map (·.name)
    · rw [givenNames_of_known hknown] at hseen ⊢
      rw [members_known hentry hknown (hseen _ List.mem_cons_self) hlead hgap htext hended, members_end hgap']
      rfl
    · rw [givenNames_of_unknown hknown, members_unknown hentry hknown hlead hgap htext hended, members_end hgap']
      rfl
  | @more gap text gap' others entry entries hgap htext hgap' _ ih =>
    obtain ⟨fuel, rfl⟩ : ∃ n, fuel = n + 1 := ⟨fuel - 1, by omega⟩
    rw [List.length_cons] at hfuel
    have hentry := hfollows entry List.mem_cons_self
    have hothers := fun e he => hfollows e (List.mem_cons_of_mem _ he)
    have hended := ended_gap hgap' (by decide : ',' ∈ [',', ']', '\x7d']) (others ++ '\x7d' :: rest)
    have hcomma : gap' ++ ',' :: (others ++ '\x7d' :: rest) = (gap' ++ [',']) ++ (others ++ '\x7d' :: rest) := by simp
    simp only [List.append_assoc, List.cons_append]
    by_cases hknown : entry.1 ∈ known.map (·.name)
    · rw [givenNames_of_known hknown] at hnodup hseen ⊢
      obtain ⟨hfresh, hnodup⟩ := List.nodup_cons.mp hnodup
      rw [members_known hentry hknown (hseen _ List.mem_cons_self) hlead hgap htext hended, hcomma,
        ih hothers hnodup _ (.comma hgap') (by omega)]
      · simp
      · intro name hname hmem
        rcases List.mem_cons.mp hmem with rfl | hmem
        · exact hfresh hname
        · exact hseen name (List.mem_cons_of_mem _ hname) hmem
    · rw [givenNames_of_unknown hknown] at hnodup hseen ⊢
      rw [members_unknown hentry hknown hlead hgap htext hended, hcomma, ih hothers hnodup hseen (.comma hgap') (by omega)]

theorem length_le_of_listed {Part : List Char → α → Prop} {parts : List α} (h : Listed Part text parts) :
    parts.length ≤ text.length + 1 := by
  induction h with
  | one => simp
  | more _ _ _ _ ih => simp only [List.length_cons, List.length_append]; omega

/-- What is in front of the closing bracket leads to the state that has seen the known members. -/
theorem inside_run (hlisted : Enclosed (Named Spells) '\x7b' '\x7d' text entries)
    (hfollows : ∀ entry ∈ entries, Follows known state entry) (hnodup : (givenNames known entries).Nodup)
    (rest : List Char) : ∃ inner, text ++ rest = '\x7b' :: inner ∧
      members known (inner.length + 1) true [] (state []) inner =
        .ok (state (givenNames known entries).reverse, '\x7d' :: rest) := by
  cases hlisted with
  | @none gap hgap => exact ⟨gap ++ '\x7d' :: rest, by simp, members_end hgap _ _ _ _ _⟩
  | @some inner _ hlisted =>
    have hlength := length_le_of_listed hlisted
    have hfuel : entries.length < (inner ++ '\x7d' :: rest).length + 1 := by
      simp only [List.length_append, List.length_cons]
      omega
    have hrun := members_run hlisted hfollows hnodup (fun _ _ => List.not_mem_nil) .first hfuel rest
    rw [List.append_nil] at hrun
    exact ⟨inner ++ '\x7d' :: rest, by simp, hrun⟩

/-- An object is read to what the state is finished to that has seen its known members. -/
theorem structured_takes {finish : α → Except Failure β} (hfollows : ∀ entry ∈ entries, Follows known state entry)
    (hnodup : (givenNames known entries).Nodup) (hfinish : finish (state (givenNames known entries).reverse) = .ok b) :
    Takes (structured known (state []) finish) (.object entries) b := by
  intro gap text rest hgap htext hrest
  cases htext with | object htext => ?_
  obtain ⟨inner, hinner, hrun⟩ := inside_run htext hfollows hnodup rest
  have hskip (c : Char) (text : List Char) : skip (c :: text) = .ok ((), text) := rfl
  have hfinished (text : List Char) :
      (liftM (finish (state (givenNames known entries).reverse)) : Reader β) text = .ok (b, text) := by
    rw [hfinish]
    rfl
  rw [hinner, structured, bind_of_ok (demand_run hgap (by decide) _)]
  show (skip >>= _) ('\x7b' :: inner) = _
  rw [bind_of_ok (hskip _ _), get_bind, bind_of_ok hrun, bind_of_ok (hfinished _), bind_of_ok (hskip _ _)]
  rfl

theorem givenNames_perm {fields : List (String × Value)} (h : Lists (known.map (·.name)) fields entries)
    (hfields : ∀ field ∈ fields, field.1 ∈ known.map (·.name)) :
    (givenNames known entries).Perm (fields.map (·.1)) := by
  obtain ⟨others, hperm, hothers⟩ := h
  have hkept : (fields.map (·.1)).filter (· ∈ known.map (·.name)) = fields.map (·.1) :=
    List.filter_eq_self.mpr (List.forall_mem_map.mpr fun field hfield => decide_eq_true (hfields field hfield))
  have hleft : (others.map (·.1)).filter (· ∈ known.map (·.name)) = [] :=
    List.filter_eq_nil_iff.mpr (List.forall_mem_map.mpr fun other hother hname =>
      (hothers other hother).1 (of_decide_eq_true hname))
  have hnames := (hperm.map (·.1)).filter (· ∈ known.map (·.name))
  rwa [List.map_append, List.filter_append, hkept, hleft, List.append_nil] at hnames

/-- An object that lists fields is read to what the state is finished to that has seen them. -/
theorem structured_lists {fields : List (String × Value)} {finish : α → Except Failure β}
    (h : Lists (known.map (·.name)) fields entries) (hnodup : (fields.map (·.1)).Nodup)
    (hread : ∀ field ∈ fields, ∀ member ∈ known, member.name = field.1 →
      ∀ seen, Takes (member.read (state seen)) field.2 (state (field.1 :: seen)))
    (hfields : ∀ field ∈ fields, field.1 ∈ known.map (·.name))
    (hfinish : ∀ names : List String, names.Perm (fields.map (·.1)) → finish (state names) = .ok b) :
    Takes (structured known (state []) finish) (.object entries) b := by
  have hperm := givenNames_perm h hfields
  refine structured_takes ?_ (hperm.nodup_iff.mpr hnodup) (hfinish _ ((List.reverse_perm _).trans hperm))
  obtain ⟨others, hentries, hothers⟩ := h
  intro entry hentry
  rcases List.mem_append.mp (hentries.mem_iff.mp hentry) with hfield | hother
  · exact ⟨hread entry hfield, fun hnot => absurd (hfields entry hfield) hnot⟩
  · obtain ⟨hname, hscalar⟩ := hothers entry hother
    exact ⟨fun member hmember heq => absurd (List.mem_map.mpr ⟨member, hmember, heq⟩) hname, fun _ => hscalar⟩

end

/-! ## Documents -/

theorem document_takes {read : Reader α} (h : Takes read v a) {text : String} (htext : Documents text v) :
    document read text = .ok a := by
  cases htext with | @around gap inner gap' hgap hinner hgap' htext => ?_
  have hrun := h _ _ _ hgap hinner (ended_of_isGap hgap')
  have hdrop : (gap' ++ []).dropWhile isBlank = [] := Text.dropWhile_append_stop hgap' nofun
  rw [List.append_nil] at hdrop
  rw [document, htext, StateT.run, hrun, ok_bind]
  dsimp only
  rw [hdrop]
  rfl

end TensorFuzz.Json
