import TensorFuzz.Proofs.Module.Items
import TensorFuzz.Proofs.Module.Soundness

/-!
# The outline of a module

What a module consists of can be counted in its text: the words `function` and `record` stand in it once for each item,
and the heading of the entry function stands in it once. The number of items, parameters and fields is one that the
profile allows.
-/

namespace TensorFuzz

open Check (isIdentChar)
open Text (runs words Stops Closes runs_around stops_mark stops_mark_append)

variable {σ : Type} {p : Profile}

/-! ## Neighbours in a list -/

section
variable {α ι : Type} {a b : α} {xs ys front rest front' rest' : List α}

/-- The second one never directly follows the first one. -/
def Apart (a b : α) (xs : List α) : Prop := ∀ front rest, xs ≠ front ++ a :: b :: rest

theorem head?_flatMap_ne {f : ι → List α} {items : List ι} (h : ∀ item ∈ items, (f item).head? ≠ some b) :
    (items.flatMap f).head? ≠ some b := fun hsome => by
  rw [List.head?_flatMap] at hsome
  obtain ⟨item, hitem, hb⟩ := List.exists_of_findSome?_eq_some hsome
  exact h item hitem hb

namespace Apart

theorem of_not_mem (h : a ∉ xs ∨ b ∉ xs) : Apart a b xs := by
  rintro front rest rfl
  simp at h

theorem append (hxs : Apart a b xs) (hys : Apart a b ys) (hhead : ys.head? ≠ some b) : Apart a b (xs ++ ys) := by
  intro front rest heq
  rcases List.append_eq_append_iff.mp heq with ⟨between, -, hrest⟩ | ⟨between, hfront, hrest⟩
  · exact hys between rest hrest
  · match between, hrest with
    | [], hrest => exact hys [] rest hrest.symm
    | [_], hrest => exact hhead (by cases hrest; rfl)
    | _ :: _ :: between, hrest => exact hxs front between (by cases hrest; exact hfront)

theorem flatMap {f : ι → List α} {items : List ι} (h : ∀ item ∈ items, Apart a b (f item))
    (hhead : ∀ item ∈ items, (f item).head? ≠ some b) : Apart a b (items.flatMap f) := by
  induction items with
  | nil => exact of_not_mem (.inl List.not_mem_nil)
  | cons item items ih =>
    obtain ⟨hitem, hitems⟩ := List.forall_mem_cons.mp h
    obtain ⟨-, hheads⟩ := List.forall_mem_cons.mp hhead
    exact hitem.append (ih hitems hheads) (head?_flatMap_ne hheads)

/-- A list is cut between the two in one way if they are neighbours at one place. -/
theorem front_eq (hab : a ≠ b) (hfront : Apart a b front) (hrest : Apart a b rest)
    (heq : front' ++ a :: b :: rest' = front ++ a :: b :: rest) : front' = front := by
  rcases List.append_eq_append_iff.mp heq with ⟨between, hbetween, h⟩ | ⟨between, hbetween, h⟩
  · match between, h with
    | [], _ => exact (hbetween.trans (List.append_nil _)).symm
    | [_], h => cases h; exact absurd rfl hab
    | _ :: _ :: between, h => cases h; exact absurd hbetween (hfront _ _)
  · match between, h with
    | [], _ => exact hbetween.trans (List.append_nil _)
    | [_], h => cases h; exact absurd rfl hab
    | _ :: _ :: between, h => exact absurd (by cases h; rfl) (hrest between rest')

end Apart

end

/-! ## Texts with spaces between them -/

/-- What stands around one of the texts. -/
theorem exists_around (before : List String) (text : String) (after : List String) : ∃ front rest,
    spaced (before ++ text :: after) = front ++ text ++ rest ∧
      (Closes isIdentChar front.toList ∧ identifiers front = before.flatMap identifiers) ∧
        Stops isIdentChar rest.toList ∧ identifiers rest = after.flatMap identifiers := by
  have hspace : isIdentChar ' ' = false := by decide
  induction before with
  | nil =>
    cases after with
    | nil => exact ⟨"", "", by simp [spaced], ⟨by decide, rfl⟩, by decide, rfl⟩
    | cons other others =>
      refine ⟨"", " " ++ spaced (other :: others), ?_, ⟨by decide, rfl⟩, ?_, ?_⟩
      · rw [List.nil_append, spaced_cons (List.cons_ne_nil _ _), String.empty_append, String.append_assoc]
      · rw [String.toList_append]
        exact stops_mark (by decide) _
      · rw [identifiers_append_of_closes (by decide)]
        exact runs_spaced hspace _
  | cons other before ih =>
    obtain ⟨front, rest, htext, ⟨hcloses, hfront⟩, hrest⟩ := ih
    refine ⟨other ++ " " ++ front, rest, ?_, ⟨?_, ?_⟩, hrest⟩
    · rw [List.cons_append, spaced_cons (by simp), htext]
      simp only [String.append_assoc]
    · rw [String.append_assoc, String.toList_append, String.toList_append]
      exact (hcloses.cons hspace).append (List.cons_ne_nil _ _)
    · exact (runs_space hspace other front).trans (congrArg (identifiers other ++ ·) hfront)

/-! ## Items -/

/-- The word that the item begins with. -/
def Item.word : Item → String
  | function _ => "function"
  | record .. => "record"

/-- The words of headings stand nowhere but in the heading of the item. -/
def Item.Headed : Item → Prop
  | function f => f.Headed
  | record id fields => Clear (recordRest id fields)

theorem Item.Ordinary.headed {item : Item} (h : item.Ordinary p) : item.Headed := by
  cases h with
  | function h => exact h
  | record h => exact h

theorem Item.Entry.isFunction {item : Item} (h : item.Entry) : item.isFunction = true := by
  cases h with
  | intro => rfl

theorem Item.Entry.headed {item : Item} (h : item.Entry) : item.Headed := by
  cases h with
  | intro h => exact h

theorem Function.identifiers_text {f : Function} (h : f.Headed) :
    identifiers f.text = "function".toList :: (identifiers f.ty.text ++ f.name.toList :: identifiers f.rest) := by
  have hrest : Stops isIdentChar f.rest.toList := by
    rw [Function.rest, String.append_assoc, String.append_assoc, String.append_assoc, String.toList_append]
    exact stops_mark (by decide) _
  have hspace (text : String) : identifiers (" " ++ text) = identifiers text :=
    identifiers_append_of_closes (by decide)
  have hname : identifiers (f.name ++ f.rest) = f.name.toList :: identifiers f.rest := by
    rw [identifiers_append_of_stops hrest, identifiers_name h.name.1]
    rfl
  have hty : Stops isIdentChar (" " ++ (f.name ++ f.rest)).toList := by
    rw [String.toList_append]
    exact stops_mark (by decide) _
  rw [Function.text_eq, identifiers_append_of_closes (by decide), identifiers_append_of_stops hty, hspace, hname]
  rfl

theorem identifiers_recordText (id : String) (fields : List FieldDecl) :
    identifiers (Item.record id fields).text = "record".toList :: identifiers (recordRest id fields) := by
  rw [recordText_eq, identifiers_append_of_closes (by decide)]
  rfl

namespace Item

/-- The identifiers in an item behind its first word. -/
def inside : Item → List (List Char)
  | function f => identifiers f.ty.text ++ f.name.toList :: identifiers f.rest
  | record id fields => identifiers (recordRest id fields)

theorem identifiers_text {item : Item} (h : item.Headed) : identifiers item.text = item.word.toList :: item.inside := by
  cases item with
  | function f => exact Function.identifiers_text h
  | record id fields => exact identifiers_recordText id fields

theorem exists_rest (item : Item) : ∃ rest, item.text = item.word ++ " " ++ rest := by
  cases item with
  | function f => exact ⟨_, f.text_eq⟩
  | record id fields => exact ⟨_, recordText_eq id fields⟩

/-- The words that functions and records begin with. -/
def keywords : List String := ["function", "record"]

theorem word_mem (item : Item) : item.word ∈ keywords := by
  cases item with
  | function => exact List.mem_cons_self
  | record => exact List.mem_cons_of_mem _ List.mem_cons_self

theorem not_mem_inside {item : Item} (h : item.Headed) {word : String} (hword : word ∈ keywords) :
    word.toList ∉ item.inside := by
  have hheading : word ∈ headingWords := List.mem_append_left ["void"] hword
  cases item with
  | record id fields => exact h word hheading
  | function f =>
    have hty : word.toList ∉ identifiers f.ty.text := by
      rcases h.ty with hvoid | hclear
      · have hnone : ∀ word ∈ keywords, word.toList ∉ identifiers "void" := by decide
        exact hvoid ▸ hnone word hword
      · exact hclear word hheading
    have hname : word.toList ≠ f.name.toList := fun heq => h.name.2 (String.toList_injective heq ▸ hheading)
    exact fun hmem => (List.mem_append.mp hmem).elim hty fun hmem =>
      (List.mem_cons.mp hmem).elim hname (h.rest word hheading)

/-- The words of headings are counted in an item: its first word is the only one. -/
theorem count_words {item : Item} (h : item.Headed) {word : String} (hword : word ∈ keywords) :
    (Text.words item.text.toList).count word.toList = if item.word = word then 1 else 0 := by
  obtain ⟨rest, htext⟩ := item.exists_rest
  have hidentifiers : item.word.toList :: identifiers rest = item.word.toList :: item.inside := by
    rw [← identifiers_text h, htext]
    have hself : ∀ word ∈ keywords, identifiers word = [word.toList] := by decide
    exact (congrArg (· ++ identifiers rest) (hself _ item.word_mem)).symm.trans
      (runs_space (by decide) item.word rest).symm
  have hrest : word.toList ∉ Text.words rest.toList := fun hmem => by
    rw [Text.words_eq_runs] at hmem
    have hchars : ∀ word ∈ keywords, word.toList.all isIdentChar = true := by decide
    have hident : word.toList ∈ identifiers rest := by
      refine Text.mem_runs_of_forall (fun c hblank => ?_) hmem (List.all_eq_true.mp (hchars word hword))
      exact Bool.eq_false_iff.mpr fun hc => by simp [Check.isBlank_of_isIdentChar hc] at hblank
    exact not_mem_inside h hword ((List.cons.inj hidentifiers).2 ▸ hident)
  have hfirst : Text.words item.word.toList = [item.word.toList] := by
    have hself : ∀ word ∈ keywords, Text.words word.toList = [word.toList] := by decide
    exact hself _ item.word_mem
  rw [Text.words_eq_runs] at hfirst hrest ⊢
  rw [htext, runs_space (by decide), hfirst, List.count_append, List.count_eq_zero.mpr hrest, List.count_singleton]
  simp [String.toList_inj]

end Item

/-- The words of headings count the items. -/
theorem count_moduleText {items : List Item} (h : ∀ item ∈ items, item.Headed) {word : String}
    (hword : word ∈ Item.keywords) :
    (words (moduleText items).toList).count word.toList = items.countP (·.word = word) := by
  have hparts : words (moduleText items).toList = items.flatMap (words ·.text.toList) := by
    rw [Text.words_eq_runs, moduleText, runs_spaced (by decide), List.flatMap_map]
    simp only [Text.words_eq_runs]
  rw [hparts, List.count_flatMap]
  clear hparts
  induction items with
  | nil => rfl
  | cons item items ih =>
    obtain ⟨hitem, hitems⟩ := List.forall_mem_cons.mp h
    rw [List.map_cons, List.sum_cons, List.countP_cons, ih hitems, Nat.add_comm]
    simp only [Function.comp, Item.count_words hitem hword, decide_eq_true_eq]

theorem count_functions {items : List Item} (h : ∀ item ∈ items, item.Headed) :
    (words (moduleText items).toList).count "function".toList = items.countP (·.isFunction) :=
  (count_moduleText h List.mem_cons_self).trans
    (List.countP_congr fun item _ => by cases item <;> simp [Item.word, Item.isFunction])

theorem count_records {items : List Item} (h : ∀ item ∈ items, item.Headed) :
    (words (moduleText items).toList).count "record".toList = items.countP (!·.isFunction) :=
  (count_moduleText h (List.mem_cons_of_mem _ List.mem_cons_self)).trans
    (List.countP_congr fun item _ => by cases item <;> simp [Item.word, Item.isFunction])

theorem length_eq_counts (items : List Item) :
    items.length = items.countP (·.isFunction) + items.countP (!·.isFunction) :=
  (List.length_eq_countP_add_countP (·.isFunction)).trans (by simp)

theorem Item.AllTyped.counts {holds : Registry → Holding} {scope scope' : Scope} {records records' : Registry}
    {items : List Item} (h : Item.AllTyped holds scope records items scope' records') :
    scope'.outer = scope.outer ∧ scope'.current.length = scope.current.length + items.countP (·.isFunction) ∧
      records'.size = records.size + items.countP (!·.isFunction) := by
  induction h with
  | nil => exact ⟨rfl, rfl, rfl⟩
  | cons hitem hitems ih =>
    obtain ⟨houter, hcurrent, hsize⟩ := ih
    cases hitem with
    | function hf =>
      cases hf
      refine ⟨houter, ?_, hsize.trans (by rw [List.countP_cons_of_neg (by simp [Item.isFunction])])⟩
      rw [hcurrent, List.countP_cons_of_pos (by rfl)]
      exact Nat.succ_add_eq_add_succ _ _
    | @record _ _ _ _ fields _ =>
      refine ⟨houter, hcurrent.trans (by rw [List.countP_cons_of_neg (by simp [Item.isFunction])]), ?_⟩
      rw [hsize, List.countP_cons_of_pos (by rfl), Registry.size, List.length_append]
      exact Nat.succ_add_eq_add_succ _ _

/-- The items of a module: the entry function, with ordinary items before and after it. -/
inductive Outlined (p : Profile) : List Item → Prop
  | intro {before after : List Item} {main : Item} : (∀ item ∈ before, item.Ordinary p) → main.Entry →
      (∀ item ∈ after, item.Ordinary p) → Outlined p (before ++ main :: after)

namespace Outlined

variable {items : List Item}

theorem forall_mem (h : Outlined p items) {P : Item → Prop} (hordinary : ∀ item, item.Ordinary p → P item)
    (hentry : ∀ item, item.Entry → P item) : ∀ item ∈ items, P item := by
  obtain ⟨hbefore, hmain, hafter⟩ := h
  have hrest := List.forall_mem_cons.mpr ⟨hentry _ hmain, fun item hitem => hordinary item (hafter item hitem)⟩
  exact List.forall_mem_append.mpr ⟨fun item hitem => hordinary item (hbefore item hitem), hrest⟩

theorem headed (h : Outlined p items) : ∀ item ∈ items, item.Headed :=
  h.forall_mem (fun _ => Item.Ordinary.headed) fun _ => Item.Entry.headed

theorem exists_entry (h : Outlined p items) : ∃ main ∈ items, main.Entry := by
  obtain ⟨-, hmain, -⟩ := h
  exact ⟨_, List.mem_append_right _ List.mem_cons_self, hmain⟩

end Outlined

namespace Item.AllDrawn

variable {count : Nat} {items : List Item}

theorem ordinary (h : Item.AllDrawn p true count items) : items.length = count ∧ ∀ item ∈ items, item.Ordinary p := by
  generalize hdrawn : true = hasMain at h
  induction h with
  | nil => exact ⟨rfl, List.forall_mem_nil _⟩
  | cons hitem _ ih =>
    obtain ⟨hlength, hitems⟩ := ih hdrawn
    exact ⟨congrArg (· + 1) hlength, List.forall_mem_cons.mpr ⟨hitem, hitems⟩⟩
  | entry => cases hdrawn

theorem outlined (h : Item.AllDrawn p false count items) : items.length = count + 1 ∧ Outlined p items := by
  generalize hdrawn : false = hasMain at h
  induction h with
  | nil => cases hdrawn
  | cons hitem _ ih =>
    obtain ⟨hlength, hbefore, hmain, hafter⟩ := ih hdrawn
    exact ⟨congrArg (· + 1) hlength, .intro (List.forall_mem_cons.mpr ⟨hitem, hbefore⟩) hmain hafter⟩
  | entry hmain hitems =>
    obtain ⟨hlength, hitems⟩ := hitems.ordinary
    exact ⟨congrArg (· + 1) hlength, .intro (List.forall_mem_nil _) hmain hitems⟩

end Item.AllDrawn

/-! ## The heading of the entry function -/

/-- The part stands in the text at one place only. -/
def OccursOnce (part text : String) : Prop :=
  ∃ front rest, text = front ++ part ++ rest ∧ ∀ front' rest', text = front' ++ part ++ rest' → front' = front

/-- What only the entry function begins with. -/
def entryHeading : String := "function void main() \x7b"

/-- Nowhere among the words does the name of the entry function directly follow the word for no value. -/
abbrev Headless (words : List (List Char)) : Prop := Apart "void".toList "main".toList words

theorem entryHeading_append (front rest : String) :
    front ++ entryHeading ++ rest = front ++ "function" ++ (" void main() \x7b" ++ rest) := by
  have hheading : entryHeading = "function" ++ " void main() \x7b" := by decide
  rw [hheading]
  simp only [String.append_assoc]

theorem stops_entryHeading (rest : String) : Stops isIdentChar (" void main() \x7b" ++ rest).toList := by
  rw [String.toList_append]
  exact stops_mark (by decide) _

theorem identifiers_entryHeading (front rest : String) : identifiers (front ++ entryHeading ++ rest) =
    identifiers (front ++ "function") ++ "void".toList :: "main".toList :: identifiers rest := by
  have hwords : identifiers (" void main() \x7b" ++ rest) = "void".toList :: "main".toList :: identifiers rest :=
    identifiers_append_of_closes (by decide)
  rw [entryHeading_append, identifiers_append_of_stops (stops_entryHeading rest), hwords]

theorem occursOnce_entryHeading {front rest : String} (hfront : Headless (identifiers (front ++ "function")))
    (hrest : Headless (identifiers rest)) : OccursOnce entryHeading (front ++ entryHeading ++ rest) := by
  refine ⟨front, rest, rfl, fun front' rest' heq => ?_⟩
  have hidentifiers : identifiers (front' ++ "function") = identifiers (front ++ "function") := by
    have hwords := congrArg identifiers heq.symm
    rw [identifiers_entryHeading, identifiers_entryHeading] at hwords
    exact Apart.front_eq (by decide) hfront hrest hwords
  have hends (front : String) : Text.EndsInRun isIdentChar (front ++ "function").toList :=
    ⟨'n', by simp [String.toList_append], by decide⟩
  rw [entryHeading_append, entryHeading_append] at heq
  have hlists := congrArg String.toList heq.symm
  rw [String.toList_append, @String.toList_append (front ++ "function")] at hlists
  have htexts := Text.eq_of_runs_eq hlists (hends _) (stops_entryHeading rest') (hends _) (stops_entryHeading rest)
    hidentifiers
  rw [String.toList_append, String.toList_append] at htexts
  exact String.toList_injective (List.append_cancel_right htexts)

theorem Item.Headed.head_ne {item : Item} (h : item.Headed) :
    (identifiers item.text).head? ≠ some "main".toList := by
  have hne : ∀ word ∈ Item.keywords, word.toList ≠ "main".toList := by decide
  rw [Item.identifiers_text h]
  exact fun hhead => hne _ item.word_mem (Option.some.inj hhead)

theorem Item.Ordinary.headless {item : Item} (h : item.Ordinary p) : Headless (identifiers item.text) := by
  have hvoid : "void" ∈ headingWords := by decide
  cases h with
  | @record id fields hclear =>
    rw [identifiers_recordText]
    refine .of_not_mem (.inl fun hmem => ?_)
    exact (List.mem_cons.mp hmem).elim (by decide) (hclear "void" hvoid)
  | @function f hf hname =>
    have hrest : "void".toList ∉ f.name.toList :: identifiers f.rest := fun hmem =>
      (List.mem_cons.mp hmem).elim (fun heq => hf.name.2 (String.toList_injective heq ▸ hvoid)) (hf.rest "void" hvoid)
    have hfirst : Headless ("function".toList :: identifiers f.ty.text) := by
      refine .of_not_mem ?_
      rcases hf.ty with hty | hclear
      · rw [hty]
        exact .inr (by decide)
      · exact .inl fun hmem => (List.mem_cons.mp hmem).elim (by decide) (hclear "void" hvoid)
    have hhead : f.name.toList ≠ "main".toList := fun heq => hname (String.toList_injective heq)
    rw [Item.text, Function.identifiers_text hf]
    exact hfirst.append (.of_not_mem (.inl hrest)) fun hsome => hhead (Option.some.inj hsome)

theorem Item.Entry.exists_tail {item : Item} (h : item.Entry) :
    ∃ tail, item.text = entryHeading ++ tail ∧ Clear tail := by
  cases h with
  | @intro f hf hty hname hparams =>
    let tail := " " ++ (spaced (Stmt.texts f.body ++ (f.result.map returnText).toList) ++ " \x7d ")
    have hrest : f.rest = "() \x7b" ++ tail := by
      have hmark : ") \x7b " = ") \x7b" ++ " " := by decide
      rw [Function.rest, hparams, hmark]
      simp only [tail, List.map_nil, String.append_assoc]
      rfl
    refine ⟨tail, ?_, fun word hword => ?_⟩
    · rw [Item.text, Function.text_eq, hty, hname, hrest]
      simp only [← String.append_assoc]
      rfl
    · have hclear := hf.rest word hword
      rw [hrest, identifiers_append_of_closes (by decide)] at hclear
      exact hclear

/-! ## Modules -/

/-- A record has as many fields as the profile allows, and a function as many parameters; the entry function has none. -/
def Item.Allowed (p : Profile) : Item → Prop
  | function f => if f.name = Module.entryName then f.params = [] else p.functionParams.Holds f.params.length
  | record _ fields => p.recordFields.Holds fields.length

theorem Item.Ordinary.allowed {item : Item} (h : item.Ordinary p) : item.Allowed p := by
  cases h with
  | function _ hname hcount => exact (if_neg hname).mpr hcount
  | record _ hcount => exact hcount

theorem Item.Entry.allowed {item : Item} (h : item.Entry) : item.Allowed p := by
  cases h with
  | intro _ _ hname hparams => exact (if_pos hname).mpr hparams

theorem Outlined.occursOnce {items : List Item} (h : Outlined p items) :
    OccursOnce entryHeading (moduleText items) := by
  have hordinary {items : List Item} (h : ∀ item ∈ items, item.Ordinary p) :
      Headless ((items.map (·.text)).flatMap identifiers) ∧
        ((items.map (·.text)).flatMap identifiers).head? ≠ some "main".toList := by
    rw [List.flatMap_map]
    have hhead := fun item hitem => (h item hitem).headed.head_ne
    exact ⟨.flatMap (fun item hitem => (h item hitem).headless) hhead, head?_flatMap_ne hhead⟩
  obtain @⟨before, after, main, hbefore, hmain, hafter⟩ := h
  obtain ⟨tail, hmain, htail⟩ := hmain.exists_tail
  obtain ⟨front, rest, htext, ⟨hcloses, hfront⟩, hstops, hrest⟩ :=
    exists_around (before.map (·.text)) main.text (after.map (·.text))
  have hmodule : moduleText (before ++ main :: after) = front ++ entryHeading ++ (tail ++ rest) := by
    rw [moduleText, List.map_append, List.map_cons, htext, hmain]
    simp only [String.append_assoc]
  rw [hmodule]
  refine occursOnce_entryHeading ?_ ?_
  · rw [identifiers_append_of_closes hcloses, hfront]
    exact (hordinary hbefore).1.append (.of_not_mem (.inl (by decide))) (by decide)
  · rw [identifiers_append_of_stops hstops, hrest]
    have hvoid := htail "void" (by decide)
    exact Apart.append (.of_not_mem (.inl hvoid)) (hordinary hafter).1 (hordinary hafter).2

variable [RandomSource σ] {supply : Supply σ} {items : List Item} {e : Engine σ}

namespace Module

/-- The items of a module fill the module frame and the registry. -/
theorem run_counts (hrun : run p supply = .ok (items, e)) : e.scope.depth = 0 ∧
    e.scope.current.length = items.countP (·.isFunction) ∧ e.records.size = items.countP (!·.isFunction) := by
  have hmade := (ModuleSetting.loose p).generate (Engine.start_valid p supply) (canHoldBody_always _) trivial
    fun _ _ => trivial
  obtain ⟨-, -, htyped⟩ := hmade.of_run hrun
  obtain ⟨houter, hcurrent, hsize⟩ := htyped.counts
  refine ⟨congrArg List.length houter, ?_, ?_⟩
  · rw [hcurrent]
    exact Nat.zero_add _
  · rw [hsize]
    exact Nat.zero_add _

/-- The heading of the entry function stands in a module once. The words that functions and records begin with stand in
it once for each entry of the module frame and each registered record; beside the entry function these are as many as
the profile allows. -/
theorem outline (hp : p.invalid? = none) (hrun : run p supply = .ok (items, e)) :
    OccursOnce entryHeading (moduleText items) ∧
    (∃ functions records, (words (moduleText items).toList).count "function".toList = functions + 1 ∧
      (words (moduleText items).toList).count "record".toList = records ∧ p.moduleItems.Holds (functions + records) ∧
        e.scope.depth = 0 ∧ e.scope.current.length = functions + 1 ∧ e.records.size = records) ∧
    ∀ item ∈ items, item.Allowed p := by
  obtain ⟨count, hcount, hdrawn⟩ := run_drawn hp hrun
  obtain ⟨hlength, h⟩ := hdrawn.outlined
  obtain ⟨hdepth, hcurrent, hsize⟩ := run_counts hrun
  -- The entry function is the one item that the profile does not count.
  obtain ⟨main, hmem, hmain⟩ := h.exists_entry
  have hpos : 0 < items.countP (·.isFunction) := List.countP_pos_iff.mpr ⟨main, hmem, hmain.isFunction⟩
  obtain ⟨functions, hone⟩ := Nat.exists_eq_succ_of_ne_zero (Nat.ne_of_gt hpos)
  have hitems : functions + items.countP (!·.isFunction) = count := by
    have hsum := length_eq_counts items
    omega
  refine ⟨h.occursOnce, ⟨functions, _, (count_functions h.headed).trans hone, count_records h.headed, hitems ▸ hcount,
    hdepth, hcurrent.trans hone, hsize⟩, ?_⟩
  exact h.forall_mem (fun _ => Item.Ordinary.allowed) fun _ => Item.Entry.allowed

/-- A run of the default profile. -/
theorem outline_default : ∃ items e,
    run {} (⟨Repeating.mk 0, fun _ => 1⟩ : Supply Repeating) = .ok (items, e) ∧
      OccursOnce entryHeading (moduleText items) ∧ ∀ item ∈ items, item.Allowed {} := by
  obtain ⟨items, e, hrun⟩ := exists_run (p := {}) (by decide) (by decide) Repeating.zero_steady
  obtain ⟨honce, -, hallowed⟩ := outline (by decide) hrun
  exact ⟨items, e, hrun, honce, hallowed⟩

/-- The entry function has no parameters even if the profile wants one for each function. -/
theorem entry_below_params : ({ functionParams := ⟨1, 1⟩ } : Profile).invalid? = none ∧ ∃ items e f,
    run { functionParams := ⟨1, 1⟩ } (⟨Repeating.mk 0, fun _ => 1⟩ : Supply Repeating) = .ok (items, e) ∧
      .function f ∈ items ∧ ¬ Range.Holds ⟨1, 1⟩ f.params.length := by
  obtain ⟨items, e, hrun⟩ :=
    exists_run (p := { functionParams := ⟨1, 1⟩ }) (by decide) (by decide) Repeating.zero_steady
  obtain ⟨_, -, hdrawn⟩ := run_drawn (by decide) hrun
  obtain ⟨main, hmem, hmain⟩ := hdrawn.outlined.2.exists_entry
  obtain @⟨f, -, -, -, hparams⟩ := hmain
  refine ⟨by decide, items, e, f, hrun, hmem, fun hholds => ?_⟩
  rw [hparams] at hholds
  exact absurd hholds.1 (by decide)

end Module

end TensorFuzz
