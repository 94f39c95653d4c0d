import TensorFuzz.Toml.Read

/-!
# Integers in configuration documents

Every integer in a document that is read fits a signed 64-bit word. The tables of a document are put together from values
that were read, and keep the property.
-/

namespace TensorFuzz.Toml

/-! ## Trees -/

/-- All integers in the value fit. -/
inductive Value.Bounded : Value → Prop
  | string (text : String) : Bounded (.string text)
  | integer {n : Int} : Fits64 n → Bounded (.integer n)
  | float : Bounded .float
  | boolean (b : Bool) : Bounded (.boolean b)
  | dateTime : Bounded .dateTime
  | list {items : List Value} : (∀ item ∈ items, Bounded item) → Bounded (.list items)
  | table {form : Form} {entries : List (String × Value)} : (∀ entry ∈ entries, Bounded entry.2) →
      Bounded (.table form entries)

/-- All integers in the item fit. -/
inductive Item.Bounded : Item → Prop
  | value {v : Value} : v.Bounded → Bounded (.value v)
  | table {form : Form} {entries : List (String × Item)} : (∀ entry ∈ entries, Bounded entry.2) →
      Bounded (.table form entries)
  | tables {members : List (List (String × Item))} : (∀ member ∈ members, ∀ entry ∈ member, Bounded entry.2) →
      Bounded (.tables members)

/-- All integers in the entries fit. -/
def Entries.Bounded (entries : Entries) : Prop := ∀ entry ∈ entries, entry.2.Bounded

theorem Entries.bounded_nil : Entries.Bounded [] := List.forall_mem_nil _

section
variable {α : Type} {P : α → Prop} {entries : List (String × α)} {key : String} {a : α}

theorem mem_of_find? (h : find? entries key = some a) : ∃ name, (name, a) ∈ entries := by
  obtain ⟨⟨name, b⟩, hfind, hb⟩ := Option.map_eq_some_iff.mp h
  obtain rfl : b = a := hb
  exact ⟨name, List.mem_of_find?_eq_some hfind⟩

theorem find?_bounded (h : ∀ entry ∈ entries, P entry.2) (hfind : find? entries key = some a) : P a := by
  obtain ⟨name, hmem⟩ := mem_of_find? hfind
  exact h _ hmem

theorem put_bounded (h : ∀ entry ∈ entries, P entry.2) (ha : P a) : ∀ entry ∈ put entries key a, P entry.2 := by
  unfold put
  split
  · refine List.forall_mem_map.mpr fun entry hentry => ?_
    split
    · exact ha
    · exact h entry hentry
  · exact List.forall_mem_append.mpr ⟨h, List.forall_mem_singleton.mpr ha⟩

theorem changeLast_bounded {change : α → Option α} {as as' : List α} (h : ∀ a ∈ as, P a)
    (hchange : ∀ a a', P a → change a = some a' → P a') (has : changeLast change as = some as') : ∀ a ∈ as', P a := by
  induction as generalizing as' with
  | nil => cases has
  | cons a others ih =>
    obtain ⟨ha, hothers⟩ := List.forall_mem_cons.mp h
    cases others with
    | nil =>
      obtain ⟨a', ha', has⟩ := Option.bind_eq_some_iff.mp has
      cases has
      exact List.forall_mem_singleton.mpr (hchange a a' ha ha')
    | cons other others =>
      obtain ⟨others', hothers', has⟩ := Option.bind_eq_some_iff.mp has
      cases has
      exact List.forall_mem_cons.mpr ⟨ha, ih hothers hothers'⟩

end

theorem addInline_bounded {entries entries' : List (String × Value)} {path : List String} {key : String} {v : Value}
    (h : ∀ entry ∈ entries, entry.2.Bounded) (hv : v.Bounded) (hadd : addInline entries path key v = some entries') :
    ∀ entry ∈ entries', entry.2.Bounded := by
  induction path generalizing entries entries' with
  | nil =>
    rw [addInline] at hadd
    split at hadd
    · cases hadd
    · cases hadd
      exact List.forall_mem_append.mpr ⟨h, List.forall_mem_singleton.mpr hv⟩
  | cons name path ih =>
    rw [addInline] at hadd
    split at hadd
    · obtain ⟨inner', hinner', hadd⟩ := Option.bind_eq_some_iff.mp hadd
      cases hadd
      exact put_bounded h (.table (ih (List.forall_mem_nil _) hinner'))
    · next inner hfind =>
      obtain ⟨inner', hinner', hadd⟩ := Option.bind_eq_some_iff.mp hadd
      cases hadd
      have hinner := find?_bounded h hfind
      cases hinner with | table hinner => exact put_bounded h (.table (ih hinner hinner'))
    · cases hadd

theorem changeAt_bounded {change : Entries → Option Entries} {path : List String} {entries entries' : Entries}
    (h : entries.Bounded) (hchange : ∀ inner inner' : Entries, inner.Bounded → change inner = some inner' → inner'.Bounded)
    (hadd : changeAt change path entries = some entries') : entries'.Bounded := by
  induction path generalizing entries entries' with
  | nil => exact hchange _ _ h hadd
  | cons name path ih =>
    rw [changeAt] at hadd
    split at hadd
    · obtain ⟨inner', hinner', hadd⟩ := Option.bind_eq_some_iff.mp hadd
      cases hadd
      exact put_bounded h (.table (ih Entries.bounded_nil hinner'))
    · next form inner hfind =>
      obtain ⟨inner', hinner', hadd⟩ := Option.bind_eq_some_iff.mp hadd
      cases hadd
      have hinner := find?_bounded h hfind
      cases hinner with | table hinner => exact put_bounded h (.table (ih hinner hinner'))
    · next members hfind =>
      obtain ⟨members', hmembers', hadd⟩ := Option.bind_eq_some_iff.mp hadd
      cases hadd
      have hmembers := find?_bounded h hfind
      cases hmembers with | tables hmembers => ?_
      exact put_bounded h (.tables (changeLast_bounded hmembers (fun _ _ hinner hinner' => ih hinner hinner') hmembers'))
    · cases hadd

theorem openTable_bounded {path : List String} {key : String} {entries entries' : Entries} (h : entries.Bounded)
    (hopen : openTable path key entries = some entries') : entries'.Bounded := by
  refine changeAt_bounded h (fun inner inner' hinner hinner' => ?_) hopen
  split at hinner'
  · cases hinner'
    exact put_bounded hinner (.table Entries.bounded_nil)
  · next hfind =>
    cases hinner'
    have htable := find?_bounded hinner hfind
    cases htable with | table htable => exact put_bounded hinner (.table htable)
  · cases hinner'

theorem openMember_bounded {path : List String} {key : String} {entries entries' : Entries} (h : entries.Bounded)
    (hopen : openMember path key entries = some entries') : entries'.Bounded := by
  refine changeAt_bounded h (fun inner inner' hinner hinner' => ?_) hopen
  have hempty : ∀ member ∈ [([] : Entries)], Entries.Bounded member := List.forall_mem_singleton.mpr Entries.bounded_nil
  split at hinner'
  · cases hinner'
    exact put_bounded hinner (.tables hempty)
  · next hfind =>
    cases hinner'
    have hmembers := find?_bounded hinner hfind
    cases hmembers with | tables hmembers => ?_
    exact put_bounded hinner (.tables (List.forall_mem_append.mpr ⟨hmembers, hempty⟩))
  · cases hinner'

theorem addDotted_bounded {isDotted isTop : Bool} {entries entries' : Entries} {path : List String} {key : String}
    {v : Value}
    (h : entries.Bounded) (hv : v.Bounded) (hadd : addDotted isDotted isTop entries path key v = some entries') :
    entries'.Bounded := by
  induction path generalizing isDotted isTop entries entries' with
  | nil =>
    rw [addDotted] at hadd
    split at hadd
    · cases hadd
    · cases hadd
      exact List.forall_mem_append.mpr ⟨h, List.forall_mem_singleton.mpr (.value hv)⟩
  | cons name path ih =>
    rw [addDotted] at hadd
    split at hadd
    · obtain ⟨inner', hinner', hadd⟩ := Option.bind_eq_some_iff.mp hadd
      cases hadd
      exact put_bounded h (.table (ih Entries.bounded_nil hinner'))
    · cases hadd
    · next form inner _ hfind =>
      obtain ⟨inner', hinner', hadd⟩ := Option.bind_eq_some_iff.mp hadd
      cases hadd
      have hinner := find?_bounded h hfind
      cases hinner with | table hinner => exact put_bounded h (.table (ih hinner hinner'))
    · next members hfind =>
      obtain ⟨members', hmembers', hadd⟩ := Option.bind_eq_some_iff.mp hadd
      cases hadd
      have hmembers := find?_bounded h hfind
      cases hmembers with | tables hmembers => ?_
      exact put_bounded h (.tables (changeLast_bounded hmembers (fun _ _ hinner hinner' => ih hinner hinner') hmembers'))
    · cases hadd

theorem addValue_bounded {header path : List String} {key : String} {v : Value} {entries entries' : Entries}
    (h : entries.Bounded) (hv : v.Bounded) (hadd : addValue header path key v entries = some entries') : entries'.Bounded :=
  changeAt_bounded h (fun _ _ hinner hinner' => addDotted_bounded hinner hv hinner') hadd

/-! ## Readers -/

/-- Whatever the reader gives has the property. -/
def Gives {α : Type} (r : Reader α) (P : α → Prop) : Prop := ∀ text a rest, r text = some (a, rest) → P a

namespace Gives

variable {α β : Type} {r : Reader α} {f : α → Reader β} {P : α → Prop} {Q : β → Prop} {a : α} {o : Option α}

theorem bind (h : Gives r P) (hf : ∀ a, P a → Gives (f a) Q) : Gives (r >>= f) Q := fun text b rest hrun => by
  obtain ⟨⟨a, middle⟩, hread, hrun⟩ := Option.bind_eq_some_iff.mp hrun
  exact hf a (h text a middle hread) middle b rest hrun

/-- Nothing is needed of what is read before. -/
theorem after (hf : ∀ a, Gives (f a) Q) : Gives (r >>= f) Q := bind (fun _ _ _ _ => trivial) fun a (_ : True) => hf a

theorem pure (h : P a) : Gives (Pure.pure a) P := by
  rintro text _ _ ⟨⟩
  exact h

theorem failure : Gives (failure : Reader α) P := nofun

theorem lift (h : ∀ a, o = some a → P a) : Gives (liftM o : Reader α) P := fun text a rest hrun => by
  obtain ⟨b, ho, hrun⟩ := Option.bind_eq_some_iff.mp hrun
  cases hrun
  exact h a ho

theorem ite {c : Prop} [Decidable c] {r' : Reader α} (h : Gives r P) (h' : Gives r' P) : Gives (if c then r else r') P := by
  split
  · exact h
  · exact h'

end Gives

theorem bounded_gives (n : Int) : Gives (bounded n) Value.Bounded := by
  unfold bounded
  split
  · exact .pure (.integer ‹_›)
  · exact .failure

theorem based_gives (base : Nat) (isDigit : Char → Bool) : Gives (based base isDigit) Value.Bounded :=
  .after fun _ => .after fun _ => bounded_gives _

theorem decimal_gives (isNegative : Bool) : Gives (decimal isNegative) Value.Bounded := by
  refine .after fun whole => .after fun fraction => .after fun exponent => .ite (bounded_gives _) ?_
  exact .ite (.after fun _ => .pure .float) (.pure .float)

theorem number_gives : Gives number Value.Bounded := by
  refine .after fun text => ?_
  split
  · exact based_gives _ _
  · exact based_gives _ _
  · exact based_gives _ _
  · refine .after fun isNegative => .ite (.after fun _ => ?_) ?_
    all_goals
      refine .after fun text => ?_
      split
      · exact .after fun _ => .pure .float
      · exact .after fun _ => .pure .float
      · exact decimal_gives isNegative

theorem dateTime_gives : Gives dateTime Value.Bounded := by
  refine .after fun _ => .after fun text => ?_
  split
  · exact .ite (.after fun _ => .after fun _ => .after fun _ => .pure .dateTime) (.pure .dateTime)
  · exact .pure .dateTime

theorem numeric_gives : Gives numeric Value.Bounded :=
  .after fun _ => .ite dateTime_gives (.ite (.after fun _ => .pure .dateTime) number_gives)

section
variable {value : Reader Value} (hvalue : Gives value Value.Bounded)
include hvalue

theorem items_gives (fuel : Nat) : Gives (items value fuel) fun found => ∀ item ∈ found, item.Bounded := by
  induction fuel with
  | zero => exact .failure
  | succ fuel ih =>
    refine hvalue.bind fun item hitem => .after fun _ => .after fun _ => .ite ?_ ?_
    · refine .after fun _ => .after fun _ => .ite (.pure (List.forall_mem_singleton.mpr hitem)) ?_
      exact ih.bind fun others hothers => .pure (List.forall_mem_cons.mpr ⟨hitem, hothers⟩)
    · exact .after fun _ => .pure (List.forall_mem_singleton.mpr hitem)

theorem inlineEntries_gives (fuel : Nat) {entries : List (String × Value)} (h : ∀ entry ∈ entries, entry.2.Bounded) :
    Gives (inlineEntries value fuel entries) fun found => ∀ entry ∈ found, entry.2.Bounded := by
  induction fuel generalizing entries with
  | zero => exact .failure
  | succ fuel ih =>
    refine .after fun _ => .after fun _ => .after fun _ => hvalue.bind fun v hv => .after fun _ => ?_
    refine (Gives.lift fun entries' hadd => addInline_bounded h hv hadd).bind fun entries' h' => ?_
    exact .after fun _ => .ite (ih h') (.after fun _ => .pure h')

end

theorem valueWith_gives {nested : Option (Reader Value)} (h : ∀ inner ∈ nested, Gives inner Value.Bounded) :
    Gives (valueWith nested) Value.Bounded := by
  refine .after fun c => ?_
  split
  · exact .after fun _ => .pure (.string _)
  · exact .after fun _ => .pure (.string _)
  · refine (Gives.lift fun inner hinner => h inner hinner).bind fun inner hinner => ?_
    refine .after fun _ => .after fun _ => .after fun _ => .ite (.pure (.list (List.forall_mem_nil _))) ?_
    exact .after fun text => (items_gives hinner _).bind fun found hfound => .pure (.list hfound)
  · refine (Gives.lift fun inner hinner => h inner hinner).bind fun inner hinner => ?_
    refine .after fun _ => .after fun _ => .after fun _ => .ite (.pure (.table (List.forall_mem_nil _))) ?_
    exact .after fun text => (inlineEntries_gives hinner _ (List.forall_mem_nil _)).bind fun found hfound =>
      .pure (.table hfound)
  · exact .after fun _ => .pure (.boolean true)
  · exact .after fun _ => .pure (.boolean false)
  · exact .after fun _ => .pure .float
  · exact .after fun _ => .pure .float
  · exact numeric_gives

theorem value_gives (levels : Nat) : Gives (value levels) Value.Bounded := by
  induction levels with
  | zero => exact valueWith_gives nofun
  | succ levels ih => exact valueWith_gives (by rintro _ ⟨⟩; exact ih)

/-! ## Documents -/

theorem header_gives {draft : Draft} (h : draft.entries.Bounded) : Gives (header draft) (·.entries.Bounded) := by
  refine .after fun _ => .after fun _ => .ite ?_ ?_
  · refine .after fun found => .after fun _ => .after fun _ => ?_
    exact (Gives.lift fun entries hopen => openMember_bounded h hopen).bind fun entries hentries => .pure hentries
  · refine .after fun found => .after fun _ => .after fun _ => ?_
    exact (Gives.lift fun entries hopen => openTable_bounded h hopen).bind fun entries hentries => .pure hentries

theorem keyValue_gives {draft : Draft} (h : draft.entries.Bounded) : Gives (keyValue draft) (·.entries.Bounded) := by
  refine .after fun found => .after fun _ => .after fun _ => (value_gives _).bind fun v hv => .after fun _ => ?_
  exact (Gives.lift fun entries hadd => addValue_bounded h hv hadd).bind fun entries hentries => .pure hentries

theorem lines_gives (fuel : Nat) {draft : Draft} (h : draft.entries.Bounded) :
    Gives (lines fuel draft) (·.entries.Bounded) := by
  induction fuel generalizing draft with
  | zero => exact .failure
  | succ fuel ih =>
    refine .after fun _ => .after fun text => ?_
    split
    · exact .pure h
    · exact .after fun _ => .after fun _ => ih h
    · exact .after fun _ => .ite (.after fun _ => ih h) (ih h)
    · exact .after fun _ => .ite (.after fun _ => ih h) (ih h)
    · exact (header_gives h).bind fun _ h' => ih h'
    · exact (keyValue_gives h).bind fun _ h' => ih h'

/-- All integers in a document fit. -/
theorem parse?_bounded {text : String} {entries : Entries} (h : parse? text = some entries) : entries.Bounded := by
  obtain ⟨⟨draft, rest⟩, hlines, hentries⟩ := Option.bind_eq_some_iff.mp h
  cases hentries
  exact lines_gives _ Entries.bounded_nil _ _ _ hlines

end TensorFuzz.Toml
