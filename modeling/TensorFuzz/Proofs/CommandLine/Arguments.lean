import TensorFuzz.CommandLine.Arguments

/-!
# Arguments in words

The numbers of an accepted command line fit a 64-bit word.
-/

namespace TensorFuzz.CommandLine

/-- A word holds the number of the setting, if it has one. -/
inductive Setting.Fits : Setting → Prop
  | pretty : Fits .pretty
  | maxDimension {bound : Nat} : bound < limit64 → Fits (.maxDimension bound)
  | seed {seed : Nat} : seed < limit64 → Fits (.seed seed)
  | profile {name : String} : Fits (.profile name)
  | output {path : String} : Fits (.output path)
  | manifest {path : String} : Fits (.manifest path)

/-- Words hold the numbers of the arguments. -/
structure Arguments.Fits (args : Arguments) : Prop where
  maxDimension : ∀ bound, args.maxDimension = some bound → bound < limit64
  seed : ∀ seed, args.seed = some seed → seed < limit64

namespace Setting

theorem word?_lt {text : String} {n : Nat} (h : word? text = some n) : n < limit64 := by
  simp only [word?, Option.ite_none_left_eq_some, Option.ite_none_right_eq_some, Option.some.injEq] at h
  obtain ⟨-, hlt, rfl⟩ := h
  exact hlt

theorem ofValue?_fits {option value : String} {setting : Setting} (h : ofValue? option value = some setting) :
    setting.Fits := by
  unfold ofValue? at h
  split at h
  case h_1 | h_2 =>
    obtain ⟨n, hn, rfl⟩ := Option.map_eq_some_iff.mp h
    constructor
    exact word?_lt hn
  case h_3 => cases h; exact .profile
  case h_4 | h_5 =>
    obtain ⟨path, -, rfl⟩ := Option.map_eq_some_iff.mp h
    constructor
  case h_6 => cases h

theorem apply_fits {args : Arguments} {setting : Setting} (hargs : args.Fits) (h : setting.Fits) :
    (apply args setting).Fits := by
  cases h with
  | maxDimension h => exact ⟨fun _ heq => Option.some.inj heq ▸ h, hargs.seed⟩
  | seed h => exact ⟨hargs.maxDimension, fun _ heq => Option.some.inj heq ▸ h⟩
  | pretty | profile | output | manifest => exact ⟨hargs.maxDimension, hargs.seed⟩

end Setting

namespace Arguments

theorem settings?_fits {words : List String} {settings : List Setting} {needsHelp : Bool}
    (h : settings? words = some (settings, needsHelp)) : ∀ setting ∈ settings, setting.Fits := by
  fun_induction settings? words generalizing settings needsHelp
  case case1 | case2 | case3 => cases h; nofun
  case case4 ih =>
    obtain ⟨setting, hsetting, h⟩ := Option.bind_eq_some_iff.mp h
    obtain ⟨others, hothers, h⟩ := Option.bind_eq_some_iff.mp h
    cases h
    exact List.forall_mem_cons.mpr ⟨Setting.ofValue?_fits hsetting, ih hothers⟩
  case case5 ih =>
    obtain ⟨others, hothers, h⟩ := Option.bind_eq_some_iff.mp h
    cases h
    exact List.forall_mem_cons.mpr ⟨.pretty, ih hothers⟩
  case case6 => cases h
  case case7 ih =>
    obtain ⟨setting, hsetting, h⟩ := Option.bind_eq_some_iff.mp h
    obtain ⟨others, hothers, h⟩ := Option.bind_eq_some_iff.mp h
    cases h
    exact List.forall_mem_cons.mpr ⟨Setting.ofValue?_fits hsetting, ih hothers⟩
  case case8 => cases h

theorem foldl_apply_fits {settings : List Setting} (h : ∀ setting ∈ settings, setting.Fits) {args : Arguments}
    (hargs : args.Fits) : (settings.foldl Setting.apply args).Fits := by
  induction settings generalizing args with
  | nil => exact hargs
  | cons setting settings ih =>
    obtain ⟨hsetting, hsettings⟩ := List.forall_mem_cons.mp h
    exact ih hsettings (Setting.apply_fits hargs hsetting)

end Arguments

theorem Request.parse?_fits {words : List String} {args : Arguments} (h : Request.parse? words = some (.run args)) :
    args.Fits := by
  obtain ⟨⟨settings, needsHelp⟩, hsettings, h⟩ := Option.bind_eq_some_iff.mp h
  dsimp only at h
  split at h
  · cases needsHelp with
    | true => cases h
    | false =>
      cases h
      exact Arguments.foldl_apply_fits (Arguments.settings?_fits hsettings) ⟨nofun, nofun⟩
  · cases h

end TensorFuzz.CommandLine
