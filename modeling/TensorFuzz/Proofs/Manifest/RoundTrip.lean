import TensorFuzz.Manifest
import TensorFuzz.Proofs.Json.Writing
import TensorFuzz.Proofs.Profile.Fits

/-!
# Manifests read back

A JSON value describes a manifest if it is an object with the fields of the manifest in any order, where sizes that are
those of the default profile may be missing and fields of other names may be added. Every text of such a value is read to
the manifest, and the text that is written for a manifest is one of them.
-/

namespace TensorFuzz

open Json (Value Lists Takes Spells Documents)

/-! ## Profiles in part -/

namespace Profile

/-- The profile as far as its sizes of these names are known; the other sizes are those of the default profile. -/
def known (p : Profile) (names : List String) : Profile :=
  let d : Profile := {}
  { maxDimension := if "max_dimension" ∈ names then p.maxDimension else d.maxDimension
    maxExprDepth := if "max_expr_depth" ∈ names then p.maxExprDepth else d.maxExprDepth
    maxExprNodes := if "max_expr_nodes" ∈ names then p.maxExprNodes else d.maxExprNodes
    maxConstDepth := if "max_const_depth" ∈ names then p.maxConstDepth else d.maxConstDepth
    maxStmtDepth := if "max_stmt_depth" ∈ names then p.maxStmtDepth else d.maxStmtDepth
    moduleItems := if "module_items" ∈ names then p.moduleItems else d.moduleItems
    recordFields := if "record_fields" ∈ names then p.recordFields else d.recordFields
    functionParams := if "function_params" ∈ names then p.functionParams else d.functionParams
    functionBody := if "function_body" ∈ names then p.functionBody else d.functionBody
    blockBody := if "block_body" ∈ names then p.blockBody else d.blockBody
    switchCases := if "switch_cases" ∈ names then p.switchCases else d.switchCases }

end Profile

namespace Manifest

/-! ## Values of manifests -/

def rangeValue (range : Range) : Value := .list [.integer range.min, .integer range.max]

/-- The fields of the sizes of a profile. -/
def settingFields (p : Profile) : List (String × Value) := [
  ("max_dimension", .integer p.maxDimension),
  ("max_expr_depth", .integer p.maxExprDepth),
  ("max_expr_nodes", .integer p.maxExprNodes),
  ("max_const_depth", .integer p.maxConstDepth),
  ("max_stmt_depth", .integer p.maxStmtDepth),
  ("module_items", rangeValue p.moduleItems),
  ("record_fields", rangeValue p.recordFields),
  ("function_params", rangeValue p.functionParams),
  ("function_body", rangeValue p.functionBody),
  ("block_body", rangeValue p.blockBody),
  ("switch_cases", rangeValue p.switchCases)]

/-- The value is an object for the profile, in which sizes may be missing that are those of the default profile. -/
inductive Holds (p : Profile) : Value → Prop
  | object {given members : List (String × Value)} : given.Sublist (settingFields p) →
      (∀ field ∈ settingFields p, field ∈ given ∨ field ∈ settingFields {}) →
      Lists ((settingFields p).map (·.1)) given members → Holds p (.object members)

/-- The fields of a manifest, with a value for its sizes. -/
def fields (m : Manifest) (settings : Value) : List (String × Value) := [
  ("seed", .integer m.seed),
  ("profile", .string m.profile),
  ("settings", settings),
  ("generator_version", .string m.version)]

/-- The value is an object for the manifest. -/
inductive Describes (m : Manifest) : Value → Prop
  | object {settings : Value} {members : List (String × Value)} : Holds m.settings settings →
      Lists ((m.fields settings).map (·.1)) (m.fields settings) members → Describes m (.object members)

/-! ## Reading -/

/-- What stands at the same place in two lists, found by its key. -/
theorem mem_zip_of_key {α β : Type} {f : α → String} {g : β → String} {as : List α} {bs : List β} {a : α} {b : β}
    (h : as.map f = bs.map g) (hnodup : (as.map f).Nodup) (ha : a ∈ as) (hb : b ∈ bs) (hkey : f a = g b) :
    (a, b) ∈ as.zip bs := by
  induction as generalizing bs with
  | nil => cases ha
  | cons a' as ih =>
    obtain ⟨b', bs, rfl⟩ : ∃ b' bs', bs = b' :: bs' := List.exists_cons_of_ne_nil (List.ne_nil_of_mem hb)
    obtain ⟨hhead, htail⟩ := List.cons.inj h
    obtain ⟨hfresh, hnodup⟩ := List.nodup_cons.mp hnodup
    rcases List.mem_cons.mp ha with rfl | ha <;> rcases List.mem_cons.mp hb with rfl | hb
    · exact List.mem_cons_self
    · exact absurd (htail ▸ hkey ▸ List.mem_map_of_mem hb) hfresh
    · exact absurd (hhead ▸ hkey ▸ List.mem_map_of_mem ha) hfresh
    · exact List.mem_cons_of_mem _ (ih htail hnodup ha hb)

theorem readRange_takes {range : Range} (hmin : range.min < limit64) (hmax : range.max < limit64) :
    Takes readRange (rangeValue range) range := by
  intro gap text rest hgap htext hrest
  have hpair := Json.pair_takes (Json.natural_takes hmin) (Json.natural_takes hmax) gap text rest hgap htext hrest
  rw [readRange, bind_of_ok hpair]
  rfl

/-- Reading a size makes it known. -/
theorem setting_takes {p : Profile} (hfits : p.Fits) {member : Json.Member Profile} {field : String × Value}
    (h : (member, field) ∈ settingMembers.zip (settingFields p)) (names : List String) :
    Takes (member.read (p.known names)) field.2 (p.known (field.1 :: names)) := by
  have hsize {set : Nat → Profile} {n : Nat} {q : Profile} (hn : n ∈ p.sizes) (hset : set n = q) :
      Takes (do return set (← Json.natural)) (.integer n) q := hset ▸ (Json.natural_takes (hfits n hn)).map set
  have hrange {set : Range → Profile} {range : Range} {q : Profile} (hmin : range.min ∈ p.sizes) (hmax : range.max ∈ p.sizes)
      (hset : set range = q) : Takes (do return set (← readRange)) (rangeValue range) q :=
    hset ▸ (readRange_takes (hfits _ hmin) (hfits _ hmax)).map set
  simp only [settingMembers, settingFields, List.zip_cons_cons, List.zip_nil_left, List.mem_cons, List.not_mem_nil,
    or_false, Prod.mk.injEq] at h
  rcases h with ⟨rfl, rfl⟩ | ⟨rfl, rfl⟩ | ⟨rfl, rfl⟩ | ⟨rfl, rfl⟩ | ⟨rfl, rfl⟩ | ⟨rfl, rfl⟩ | ⟨rfl, rfl⟩ | ⟨rfl, rfl⟩ |
    ⟨rfl, rfl⟩ | ⟨rfl, rfl⟩ | ⟨rfl, rfl⟩
  iterate 5 exact hsize (by simp [Profile.sizes]) (by simp [Profile.known])
  all_goals exact hrange (by simp [Profile.sizes]) (by simp [Profile.sizes]) (by simp [Profile.known])

theorem integer_injective {n n' : Nat} (h : Value.integer n = Value.integer n') : n = n' :=
  Int.ofNat.inj (Value.integer.inj h)

theorem rangeValue_injective {range range' : Range} (h : rangeValue range = rangeValue range') : range = range' := by
  obtain ⟨hmin, hmax⟩ := List.cons.inj (Value.list.inj h)
  have hmin := integer_injective hmin
  have hmax := integer_injective (List.cons.inj hmax).1
  cases range
  cases range'
  exact Range.mk.injEq .. ▸ ⟨hmin, hmax⟩

/-- A profile is known once all sizes are known that are not those of the default profile. -/
theorem known_eq {p : Profile} {names : List String}
    (h : ∀ field ∈ settingFields p, field.1 ∈ names ∨ field ∈ settingFields {}) : p.known names = p := by
  have hknown {α : Type} {value : α → Value} (hvalue : ∀ a a', value a = value a' → a = a') (get : Profile → α)
      (name : String) (hfield : (name, value (get p)) ∈ settingFields p)
      (hdefault : (name, value (get p)) ∈ settingFields {} → value (get p) = value (get {})) :
      (if name ∈ names then get p else get {}) = get p := by
    split
    · rfl
    · next hname => exact (hvalue _ _ (hdefault ((h _ hfield).resolve_left hname))).symm
  have hsize := hknown fun _ _ => integer_injective
  have hrange := hknown fun _ _ => rangeValue_injective
  simp only [Profile.known]
  rw [hsize Profile.maxDimension "max_dimension" (by simp [settingFields]) (by simp [settingFields]),
    hsize Profile.maxExprDepth "max_expr_depth" (by simp [settingFields]) (by simp [settingFields]),
    hsize Profile.maxExprNodes "max_expr_nodes" (by simp [settingFields]) (by simp [settingFields]),
    hsize Profile.maxConstDepth "max_const_depth" (by simp [settingFields]) (by simp [settingFields]),
    hsize Profile.maxStmtDepth "max_stmt_depth" (by simp [settingFields]) (by simp [settingFields]),
    hrange Profile.moduleItems "module_items" (by simp [settingFields]) (by simp [settingFields]),
    hrange Profile.recordFields "record_fields" (by simp [settingFields]) (by simp [settingFields]),
    hrange Profile.functionParams "function_params" (by simp [settingFields]) (by simp [settingFields]),
    hrange Profile.functionBody "function_body" (by simp [settingFields]) (by simp [settingFields]),
    hrange Profile.blockBody "block_body" (by simp [settingFields]) (by simp [settingFields]),
    hrange Profile.switchCases "switch_cases" (by simp [settingFields]) (by simp [settingFields])]

theorem settingNames_nodup (p : Profile) : ((settingFields p).map (·.1)).Nodup := by
  show ["max_dimension", "max_expr_depth", "max_expr_nodes", "max_const_depth", "max_stmt_depth", "module_items",
    "record_fields", "function_params", "function_body", "block_body", "switch_cases"].Nodup
  decide

theorem readSettings_takes {p : Profile} (hfits : p.Fits) {v : Value} (h : Holds p v) : Takes readSettings v p := by
  cases h with | @object given members hgiven hcomplete hlists => ?_
  have hnames : (settingFields p).map (·.1) = settingMembers.map (·.name) := rfl
  have hstart : p.known [] = {} := rfl
  rw [hnames] at hlists
  rw [readSettings, ← hstart]
  refine Json.structured_lists hlists ((hgiven.map _).nodup (settingNames_nodup p)) ?_ ?_ ?_
  · intro field hfield member hmember hname names
    have hnodup := settingNames_nodup p
    rw [hnames] at hnodup
    exact setting_takes hfits (mem_zip_of_key hnames.symm hnodup hmember (hgiven.subset hfield) hname) names
  · exact fun field hfield => hnames ▸ List.mem_map_of_mem (hgiven.subset hfield)
  · intro names hperm
    refine congrArg Except.ok (known_eq fun field hfield => (hcomplete field hfield).imp_left fun hmem => ?_)
    exact hperm.mem_iff.mpr (List.mem_map_of_mem hmem)

/-! ### Whole manifests -/

/-- The draft of a manifest as far as its fields of these names are known. -/
def draft (m : Manifest) (names : List String) : Draft :=
  { seed := if "seed" ∈ names then some m.seed else none
    profile := if "profile" ∈ names then some m.profile else none
    settings := if "settings" ∈ names then some m.settings else none
    version := if "generator_version" ∈ names then some m.version else none }

/-- Reading a field makes it known. -/
theorem member_takes {m : Manifest} (hseed : m.seed < limit64) (hfits : m.settings.Fits) {settings : Value}
    (hsettings : Holds m.settings settings) {member : Json.Member Draft} {field : String × Value}
    (h : (member, field) ∈ members.zip (m.fields settings)) (names : List String) :
    Takes (member.read (m.draft names)) field.2 (m.draft (field.1 :: names)) := by
  have hfield {α : Type} {read : Json.Reader α} {v : Value} {a : α} {set : α → Draft} {d : Draft} (hread : Takes read v a)
      (hset : set a = d) : Takes (do return set (← read)) v d := hset ▸ hread.map set
  simp only [members, fields, List.zip_cons_cons, List.zip_nil_left, List.mem_cons, List.not_mem_nil, or_false,
    Prod.mk.injEq] at h
  rcases h with ⟨rfl, rfl⟩ | ⟨rfl, rfl⟩ | ⟨rfl, rfl⟩ | ⟨rfl, rfl⟩
  · exact hfield (Json.natural_takes hseed) (by simp [draft])
  · exact hfield (Json.string_takes m.profile) (by simp [draft])
  · exact hfield (readSettings_takes hfits hsettings) (by simp [draft])
  · exact hfield (Json.string_takes m.version) (by simp [draft])

theorem fieldNames_nodup (m : Manifest) (settings : Value) : ((m.fields settings).map (·.1)).Nodup := by
  show ["seed", "profile", "settings", "generator_version"].Nodup
  decide

theorem finish_draft {m : Manifest} {settings : Value} {names : List String}
    (h : names.Perm ((m.fields settings).map (·.1))) : (m.draft names).finish = .ok m := by
  have hmem : ∀ name ∈ ["seed", "profile", "settings", "generator_version"], name ∈ names := fun name hname =>
    h.mem_iff.mpr hname
  rw [draft, if_pos (hmem "seed" (by decide)), if_pos (hmem "profile" (by decide)), if_pos (hmem "settings" (by decide)),
    if_pos (hmem "generator_version" (by decide))]
  rfl

/-- Every text of a value for the manifest is read to it. -/
theorem parse_describes {m : Manifest} (hseed : m.seed < limit64) (hfits : m.settings.Fits) {v : Value}
    (h : m.Describes v) {text : String} (htext : Documents text v) : parse text = .ok m := by
  refine Json.document_takes ?_ htext
  cases h with | @object settings entries hsettings hlists => ?_
  have hnames : (m.fields settings).map (·.1) = members.map (·.name) := rfl
  have hstart : m.draft [] = {} := rfl
  rw [hnames] at hlists
  rw [← hstart]
  refine Json.structured_lists hlists (m.fieldNames_nodup settings) ?_ ?_ fun _ => finish_draft
  · intro field hfield member hmember hname names
    have hnodup := m.fieldNames_nodup settings
    rw [hnames] at hnodup
    exact member_takes hseed hfits hsettings (mem_zip_of_key hnames.symm hnodup hmember hfield hname) names
  · exact fun field hfield => hnames ▸ List.mem_map_of_mem hfield

/-! ## Writing -/

theorem named_line {name text : String} {v : Value} (hname : ∀ c ∈ name.toList, c ≠ '"' ∧ c ≠ '\\' ∧ 0x20 ≤ c.toNat)
    (hvalue : Spells text.toList v) : Json.Named Spells ("\"" ++ name ++ "\": " ++ text).toList (name, v) := by
  have htext : ("\"" ++ name ++ "\": " ++ text).toList =
      ('"' :: (name.toList ++ ['"'])) ++ ([] ++ ':' :: ([' '] ++ text.toList)) := by simp
  rw [htext]
  exact .colon (.quotes (Json.inside_plain hname)) Json.isGap_nil (by decide) hvalue

/-- Lines of members are a list of their names and values, as far as nothing in the names is to be escaped. -/
theorem memberLines_listed {indent : String} (hindent : Json.IsGap indent.toList) {texts : List (String × String)}
    {entries : List (String × Value)} (hne : texts ≠ []) (hnames : texts.map (·.1) = entries.map (·.1))
    (hplain : ∀ name ∈ texts.map (·.1), ∀ c ∈ name.toList, c ≠ '"' ∧ c ≠ '\\' ∧ 0x20 ≤ c.toNat)
    (hvalues : ∀ pair ∈ texts.zip entries, Spells pair.1.2.toList pair.2.2) {gap : List Char} (hgap : Json.IsGap gap) :
    Json.Listed (Json.Named Spells) ('\n' :: ((memberLines indent texts).toList ++ gap)) entries := by
  have hfront : Json.IsGap ('\n' :: indent.toList) := List.forall_mem_cons.mpr ⟨by decide, hindent⟩
  induction texts generalizing entries with
  | nil => exact absurd rfl hne
  | cons first others ih =>
    obtain ⟨name, text⟩ := first
    obtain ⟨⟨name', v⟩, entries, rfl⟩ : ∃ entry entries', entries = entry :: entries' :=
      List.exists_cons_of_ne_nil fun hnil => by simp [hnil] at hnames
    obtain ⟨hhead, htails⟩ := List.cons.inj hnames
    obtain rfl : name = name' := hhead
    obtain ⟨hplain, hothers⟩ := List.forall_mem_cons.mp hplain
    obtain ⟨hvalue, hvalues⟩ := List.forall_mem_cons.mp hvalues
    have hpart := named_line hplain hvalue
    cases others with
    | nil =>
      obtain rfl : entries = [] := List.map_eq_nil_iff.mp htails.symm
      have htext : '\n' :: ((memberLines indent [(name, text)]).toList ++ gap) =
          ('\n' :: indent.toList) ++ (("\"" ++ name ++ "\": " ++ text).toList ++ gap) := by simp [memberLines]
      rw [htext]
      exact .one hfront hpart hgap
    | cons other others =>
      have htext : '\n' :: ((memberLines indent ((name, text) :: other :: others)).toList ++ gap) =
          ('\n' :: indent.toList) ++ (("\"" ++ name ++ "\": " ++ text).toList ++
            ([] ++ ',' :: ('\n' :: ((memberLines indent (other :: others)).toList ++ gap)))) := by
        simp [memberLines, String.intercalate_cons_cons]
      rw [htext]
      exact .more hfront hpart Json.isGap_nil (ih (List.cons_ne_nil _ _) htails hothers hvalues)

theorem natural_spells (n : Nat) : Spells (toString n).toList (.integer n) := .integer n

theorem rangeText_spells (range : Range) : Spells (rangeText range).toList (rangeValue range) := by
  have htext : (rangeText range).toList = '[' :: ((("\n      ".toList ++ ((toString range.min).toList ++ ([] ++ ',' ::
      ("\n      ".toList ++ ((toString range.max).toList ++ "\n    ".toList))))) ) ++ [']']) := by simp [rangeText]
  rw [htext]
  exact .list (.some (.more (by decide) (natural_spells range.min) Json.isGap_nil
    (.one (by decide) (natural_spells range.max) (by decide))))

/-- An object of a manifest: lines of members between two brackets. -/
theorem object_spells {indent ending : String} (hindent : Json.IsGap indent.toList) {texts : List (String × String)}
    {entries : List (String × Value)} (hne : texts ≠ []) (hnames : texts.map (·.1) = entries.map (·.1))
    (hplain : ∀ name ∈ texts.map (·.1), ∀ c ∈ name.toList, c ≠ '"' ∧ c ≠ '\\' ∧ 0x20 ≤ c.toNat)
    (hvalues : ∀ pair ∈ texts.zip entries, Spells pair.1.2.toList pair.2.2) (hending : Json.IsGap ending.toList) :
    Spells ("\x7b\n" ++ memberLines indent texts ++ (ending ++ "\x7d")).toList (.object entries) := by
  have htext : ("\x7b\n" ++ memberLines indent texts ++ (ending ++ "\x7d")).toList =
      '\x7b' :: (('\n' :: ((memberLines indent texts).toList ++ ending.toList)) ++ ['\x7d']) := by simp
  rw [htext]
  exact .object (.some (memberLines_listed hindent hne hnames hplain hvalues hending))

theorem settings_spells (p : Profile) :
    Spells ("\x7b\n" ++ memberLines "    " (settingTexts p) ++ "\n  \x7d").toList (.object (settingFields p)) := by
  have hplain : ∀ name ∈ (settingTexts p).map (·.1), ∀ c ∈ name.toList, c ≠ '"' ∧ c ≠ '\\' ∧ 0x20 ≤ c.toNat := by
    show ∀ name ∈ ["max_dimension", "max_expr_depth", "max_expr_nodes", "max_const_depth", "max_stmt_depth", "module_items",
      "record_fields", "function_params", "function_body", "block_body", "switch_cases"], _
    decide
  have hvalues : ∀ pair ∈ (settingTexts p).zip (settingFields p), Spells pair.1.2.toList pair.2.2 := by
    simp only [settingTexts, settingFields, List.zip_cons_cons, List.zip_nil_left, List.forall_mem_cons]
    exact ⟨natural_spells _, natural_spells _, natural_spells _, natural_spells _, natural_spells _, rangeText_spells _,
      rangeText_spells _, rangeText_spells _, rangeText_spells _, rangeText_spells _, rangeText_spells _,
      List.forall_mem_nil _⟩
  have hgap : Json.IsGap "\n  ".toList := by decide
  have hending : "\n  \x7d" = "\n  " ++ "\x7d" := rfl
  rw [hending]
  exact object_spells (by decide) (List.cons_ne_nil _ _) rfl hplain hvalues hgap

theorem text_spells (m : Manifest) : Spells m.text.toList (.object (m.fields (.object (settingFields m.settings)))) := by
  have hplain : ∀ name ∈ ["seed", "profile", "settings", "generator_version"],
      ∀ c ∈ name.toList, c ≠ '"' ∧ c ≠ '\\' ∧ 0x20 ≤ c.toNat := by decide
  have hgap : Json.IsGap "\n".toList := by decide
  have hending : "\n\x7d" = "\n" ++ "\x7d" := rfl
  rw [text, hending]
  refine object_spells (by decide) (List.cons_ne_nil _ _) rfl hplain ?_ hgap
  simp only [fields, List.zip_cons_cons, List.zip_nil_left, List.forall_mem_cons]
  exact ⟨natural_spells _, .string (Json.quote_quoted _), settings_spells m.settings, .string (Json.quote_quoted _),
    List.forall_mem_nil _⟩

/-- What is written for a manifest is a text of a value for it. -/
theorem text_documents (m : Manifest) : ∃ v, m.Describes v ∧ Documents m.text v := by
  have hlists (known : List String) (members : List (String × Value)) : Lists known members members :=
    ⟨[], by rw [List.append_nil], List.forall_mem_nil _⟩
  have htext : m.text.toList = [] ++ (m.text.toList ++ []) := by rw [List.append_nil, List.nil_append]
  exact ⟨_, .object (.object (List.Sublist.refl _) (fun _ => .inl) (hlists _ _)) (hlists _ _),
    .around Json.isGap_nil m.text_spells Json.isGap_nil htext⟩

theorem parse_text {m : Manifest} (hseed : m.seed < limit64) (hfits : m.settings.Fits) : parse m.text = .ok m := by
  obtain ⟨v, hv, htext⟩ := m.text_documents
  exact parse_describes hseed hfits hv htext

/-- A manifest is read back from what is written for it, and from every text of an object with its fields: in any order,
with other fields that hold a string, an integer, a truth value or null, and without sizes that are those of the default
profile. -/
theorem manifest_read_back (m : Manifest) (hseed : m.seed < limit64) (hfits : m.settings.Fits) :
    parse m.text = .ok m ∧ ∀ v text, m.Describes v → Documents text v → parse text = .ok m :=
  ⟨parse_text hseed hfits, fun _ _ hv htext => parse_describes hseed hfits hv htext⟩

/-- The fields in another order, with a field that no manifest has and without any of the sizes. -/
theorem manifest_read_back_reversed : (7 < limit64 ∧ ({} : Profile).Fits) ∧
    parse (Manifest.text ⟨7, "default", {}, "0.1.0"⟩) = .ok ⟨7, "default", {}, "0.1.0"⟩ ∧
      parse ("\x7b\n" ++ memberLines " " [("note", "null"), ("generator_version", "\"0.1.0\""), ("settings", "\x7b\x7d"),
        ("profile", "\"default\""), ("seed", "7")] ++ ("\n" ++ "\x7d")) = .ok ⟨7, "default", {}, "0.1.0"⟩ := by
  have hfits : ({} : Profile).Fits := by decide
  obtain ⟨hwritten, hread⟩ := manifest_read_back ⟨7, "default", {}, "0.1.0"⟩ (by decide) hfits
  have hempty : Holds {} (.object []) := .object (List.nil_sublist _) (fun _ => .inr) ⟨[], .nil, List.forall_mem_nil _⟩
  have hnote : ∀ other ∈ [("note", Value.null)], other.1 ∉ ["seed", "profile", "settings", "generator_version"] ∧
      other.2.IsScalar := List.forall_mem_singleton.mpr ⟨by decide, trivial⟩
  have hquoted (content : String) (hplain : ∀ c ∈ content.toList, c ≠ '"' ∧ c ≠ '\\' ∧ 0x20 ≤ c.toNat) :
      Spells ('"' :: (content.toList ++ ['"'])) (.string content) := .string (.quotes (Json.inside_plain hplain))
  have hgap : Json.IsGap "\n".toList := by decide
  have htext : Spells ("\x7b\n" ++ memberLines " " [("note", "null"), ("generator_version", "\"0.1.0\""),
      ("settings", "\x7b\x7d"), ("profile", "\"default\""), ("seed", "7")] ++ ("\n" ++ "\x7d")).toList
      (.object [("note", .null), ("generator_version", .string "0.1.0"), ("settings", .object []),
        ("profile", .string "default"), ("seed", .integer 7)]) := by
    refine object_spells (by decide) (List.cons_ne_nil _ _) rfl (by decide) ?_ hgap
    simp only [List.zip_cons_cons, List.zip_nil_left, List.forall_mem_cons]
    exact ⟨.null, hquoted "0.1.0" (by decide), .object (.none Json.isGap_nil), hquoted "default" (by decide),
      .integer 7, List.forall_mem_nil _⟩
  refine ⟨⟨by decide, hfits⟩, hwritten, hread _ _ (.object hempty ⟨_, List.reverse_perm _, hnote⟩)
    (.around Json.isGap_nil htext Json.isGap_nil ?_)⟩
  rw [List.append_nil, List.nil_append]

end Manifest

end TensorFuzz
