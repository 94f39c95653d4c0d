import TensorFuzz.Proofs.Module.Generation

/-!
# Names are identifiers

Whatever words a name is built of, it is a lowercase letter and letters, perhaps with a number behind them. So it is one
token, and as no table begins a name with a word of the language, no name is one.
-/

namespace TensorFuzz

namespace Name

open Check (Bounded bounded_nil lexes_ident tokens_of_lexes)

/-- A lowercase letter, and letters behind it. -/
def Lettered (stem : String) : Prop :=
  ∃ c cs, stem.toList = c :: cs ∧ c.isLower = true ∧ ∀ d ∈ cs, d.isAlpha = true

/-- The words that items, statements, types and truth values are written with, and the name of the entry function. -/
def reservedWords : List String := [
  "true", "false", Module.entryName, "function", "record", "val", "var", "if", "else", "switch", "case", "default",
  "for", "foreach", "return", "bool", "int", "float", "string", "void", "vector", "matrix"]

/-- The name is letters with a number behind them or without one, it is one token, and it is not reserved. -/
structure Identifier (name : String) : Prop where
  numbered : Numbered Lettered name
  token : Check.tokens name = .ok [.ident name]
  unreserved : name ∉ reservedWords

theorem isAlpha_of_isLower {c : Char} (h : c.isLower = true) : c.isAlpha = true := by
  show (c.isUpper || c.isLower) = true
  rw [h, Bool.or_true]

theorem isAlpha_toUpper {c : Char} (h : c.isLower = true) : c.toUpper.isAlpha = true := by
  obtain ⟨n, hn, rfl⟩ := eq_ofNat_of_isLower h
  revert n
  decide

theorem IsWord.lettered {word : String} (h : IsWord word) : Lettered word := by
  obtain ⟨hne, hlower⟩ := h
  cases hlist : word.toList with
  | nil => exact absurd hlist hne
  | cons c cs =>
    rw [hlist] at hlower
    obtain ⟨hc, hcs⟩ := List.forall_mem_cons.mp hlower
    exact ⟨c, cs, hlist, hc, fun d hd => isAlpha_of_isLower (hcs d hd)⟩

theorem isAlpha_of_mem_join {words : List String} (h : ∀ word ∈ words, IsWord word) :
    ∀ d ∈ (String.join (words.map String.capitalize)).toList, d.isAlpha = true := by
  induction words with
  | nil => exact List.forall_mem_nil _
  | cons word words ih =>
    obtain ⟨hword, hwords⟩ := List.forall_mem_cons.mp h
    obtain ⟨c, cs, hlist, hc, hcs⟩ := hword.lettered
    rw [List.map_cons, String.join_cons, String.toList_append, toList_capitalize hlist]
    exact List.forall_mem_append.mpr ⟨List.forall_mem_cons.mpr ⟨isAlpha_toUpper hc, hcs⟩, ih hwords⟩

variable {leads : List String} {name : String}

theorem CamelCased.lettered (h : CamelCased leads name) : Lettered name := by
  obtain ⟨lead, -, words, hlead, hwords, rfl⟩ := h
  obtain ⟨c, cs, hlist, hc, hcs⟩ := hlead.lettered
  refine ⟨c, cs ++ (String.join (words.map String.capitalize)).toList, ?_, hc, ?_⟩
  · rw [camelCase, String.toList_append, hlist, List.cons_append]
  · exact List.forall_mem_append.mpr ⟨hcs, isAlpha_of_mem_join hwords⟩

theorem Numbered.mono {P Q : String → Prop} (h : Numbered P name) (hPQ : ∀ stem, P stem → Q stem) :
    Numbered Q name := by
  obtain ⟨stem, hstem, hname⟩ := h
  exact ⟨stem, hPQ stem hstem, hname⟩

theorem Numbered.identifier (h : Numbered (CamelCased leads) name) (hwords : ∀ lead ∈ leads, IsWord lead)
    (hreserved : ∀ lead ∈ leads, lead ∉ reservedWords) : Identifier name where
  numbered := h.mono fun _ hstem => hstem.lettered
  token := by
    have hlexes := lexes_ident (h.led.isName hwords) bounded_nil (.nil rfl)
    rw [List.append_nil] at hlexes
    exact tokens_of_lexes hlexes
  unreserved := h.led.not_mem hwords (by decide) hreserved

theorem Numbered.identifier_of_variable {ty : Ty} (h : Numbered (CamelCased (firstWords (patterns ty))) name) :
    Identifier name :=
  h.identifier (patterns_wordy ty).2.firstWords (by cases ty <;> (rw [patterns]; decide))

theorem Numbered.identifier_of_function (h : Numbered (CamelCased functionWords) name) : Identifier name :=
  h.identifier isWord_functionWords (by decide)

end Name

open Name (Identifier)
open Gen (Returns)

variable {σ : Type} [RandomSource σ]

theorem Module.drawRecord_identifier (p : Profile) :
    Returns (Module.drawRecord p : Gen σ Item) fun item => ∃ id fields, item = .record id fields ∧ Identifier id := by
  have hname : Returns (Module.freeRecordName : Gen σ String) Identifier :=
    .of_keeps fun _ => Module.freeRecordName_numbered.mono fun _ h => h.2.identifier (by decide) (by decide)
  refine hname.bind fun id hid => .after fun count => .after fun _ => .after fun parts => .after fun e => ?_
  exact .after fun scope => .after fun _ => .after fun _ => .pure ⟨id, _, rfl, hid⟩

/-- The names of values and functions that a scope finds free are identifiers, and so are the names of records. Only a
draw that does not end keeps a name from being found. -/
theorem names_identifiers (scope : Scope) (ty : Ty) (supply : Supply σ) (p : Profile) (e : Engine σ) :
    ((∀ name supply', scope.freeName ty supply = .ok (name, supply') → Identifier name) ∧
      (supply.Steady → ∃ name supply', scope.freeName ty supply = .ok (name, supply') ∧ Identifier name)) ∧
    ((∀ name supply', scope.freeFunctionName ty supply = .ok (name, supply') → Identifier name) ∧
      (supply.Steady → ∃ name supply', scope.freeFunctionName ty supply = .ok (name, supply') ∧ Identifier name)) ∧
    ∀ item e', (Module.drawRecord p).run e = .ok (item, e') →
      ∃ id fields, item = .record id fields ∧ Identifier id := by
  have hvariable := (scope.freeName_yields ty (σ := σ)).mono fun _ h => h.2.identifier_of_variable
  have hfunction := (scope.freeFunctionName_yields ty (σ := σ)).mono fun _ h => h.2.identifier_of_function
  exact ⟨hvariable.results supply, hfunction.results supply, fun item e' hrun => Module.drawRecord_identifier p hrun⟩

/-- Names for an integer and for a function without a value. -/
theorem names_identifiers_empty :
    (∃ name supply', Scope.empty.freeName .int ⟨Repeating.mk 0, fun _ => 1⟩ = .ok (name, supply') ∧ Identifier name) ∧
    ∃ name supply', Scope.empty.freeFunctionName .void ⟨Repeating.mk 0, fun _ => 1⟩ = .ok (name, supply') ∧
      Identifier name := by
  let supply : Supply Repeating := ⟨Repeating.mk 0, fun _ => 1⟩
  obtain ⟨⟨-, hname⟩, -⟩ := names_identifiers .empty .int supply {} (.start {} supply)
  obtain ⟨-, ⟨-, hfunction⟩, -⟩ := names_identifiers .empty .void supply {} (.start {} supply)
  exact ⟨hname Repeating.zero_steady, hfunction Repeating.zero_steady⟩

end TensorFuzz
