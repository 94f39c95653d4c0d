import TensorFuzz.Profile.Load
import TensorFuzz.Proofs.Toml.Bounded

/-!
# Profiles in words

The sizes of a profile that is loaded fit a 64-bit word: those of a document because its integers do, and those of the
embedded profiles because they are small.
-/

namespace TensorFuzz.Profile

/-- The sizes of a profile. -/
def sizes (p : Profile) : List Nat := [p.maxDimension, p.maxExprDepth, p.maxExprNodes, p.maxConstDepth, p.maxStmtDepth,
  p.moduleItems.min, p.moduleItems.max, p.recordFields.min, p.recordFields.max, p.functionParams.min, p.functionParams.max,
  p.functionBody.min, p.functionBody.max, p.blockBody.min, p.blockBody.max, p.switchCases.min, p.switchCases.max]

/-- A word holds every size of the profile. -/
def Fits (p : Profile) : Prop := ∀ n ∈ p.sizes, n < limit64

instance (p : Profile) : Decidable p.Fits := inferInstanceAs (Decidable (∀ n ∈ p.sizes, n < limit64))

/-- A word holds both ends of the range. -/
def RangeFits (range : Range) : Prop := range.min < limit64 ∧ range.max < limit64

instance (range : Range) : Decidable (RangeFits range) := inferInstanceAs (Decidable (_ ∧ _))

theorem size?_fits {item : Toml.Item} (h : item.Bounded) {n : Nat} (hsize : size? item = some n) : n < limit64 := by
  unfold size? at hsize
  split at hsize
  · next k =>
    split at hsize
    · cases hsize
      cases h with | value h => ?_
      cases h with | integer hk => ?_
      unfold Fits64 at hk
      unfold limit64
      omega
    · cases hsize
  · cases hsize

theorem range?_fits {item : Toml.Item} (h : item.Bounded) {range : Range} (hrange : range? item = some range) :
    RangeFits range := by
  unfold range? at hrange
  split at hrange
  · obtain ⟨min, hmin, hrange⟩ := Option.bind_eq_some_iff.mp hrange
    obtain ⟨max, hmax, hrange⟩ := Option.bind_eq_some_iff.mp hrange
    cases hrange
    cases h with | value h => ?_
    cases h with | list h => ?_
    obtain ⟨hfirst, hothers⟩ := List.forall_mem_cons.mp h
    exact ⟨size?_fits (.value hfirst) hmin, size?_fits (.value (hothers _ List.mem_cons_self)) hmax⟩
  · cases hrange

theorem entryOr_fits {α : Type} {P : α → Prop} {read : Toml.Item → Option α} {entries : Toml.Entries} {key : String}
    {default a : α} (h : entries.Bounded) (hread : ∀ item a, item.Bounded → read item = some a → P a) (hdefault : P default)
    (hentry : entryOr entries read key default = some a) : P a := by
  unfold entryOr at hentry
  split at hentry
  · next item hfind => exact hread item a (Toml.find?_bounded h hfind) hentry
  · cases hentry
    exact hdefault

theorem fits_of_parts {p : Profile} (hsizes : ∀ n ∈ [p.maxDimension, p.maxExprDepth, p.maxExprNodes, p.maxConstDepth,
    p.maxStmtDepth], n < limit64) (hranges : ∀ range ∈ p.ranges.map (·.2), RangeFits range) : p.Fits := by
  simp only [ranges, List.map_cons, List.map_nil, List.forall_mem_cons, RangeFits] at hsizes hranges
  obtain ⟨hdimension, hexprDepth, hexprNodes, hconstDepth, hstmtDepth, -⟩ := hsizes
  obtain ⟨⟨h₁, h₂⟩, ⟨h₃, h₄⟩, ⟨h₅, h₆⟩, ⟨h₇, h₈⟩, ⟨h₉, h₁₀⟩, ⟨h₁₁, h₁₂⟩, -⟩ := hranges
  simp only [Fits, sizes, List.forall_mem_cons]
  exact ⟨hdimension, hexprDepth, hexprNodes, hconstDepth, hstmtDepth, h₁, h₂, h₃, h₄, h₅, h₆, h₇, h₈, h₉, h₁₀, h₁₁, h₁₂,
    nofun⟩

theorem ofEntries?_fits {entries : Toml.Entries} (h : entries.Bounded) {p : Profile} (hp : ofEntries? entries = some p) :
    p.Fits := by
  have size {key : String} {default n : Nat} (hdefault : default < limit64)
      (hentry : entryOr entries size? key default = some n) : n < limit64 :=
    entryOr_fits (P := fun n => n < limit64) h (fun _ _ hitem => size?_fits hitem) hdefault hentry
  have range {key : String} {default range : Range} (hdefault : RangeFits default)
      (hentry : entryOr entries range? key default = some range) : RangeFits range :=
    entryOr_fits (P := RangeFits) h (fun _ _ hitem => range?_fits hitem) hdefault hentry
  unfold ofEntries? at hp
  simp only [bind, Option.bind_eq_some_iff, pure, Option.some.injEq] at hp
  obtain ⟨_, h₁, _, h₂, _, h₃, _, h₄, _, h₅, _, h₆, _, h₇, _, h₈, _, h₉, _, h₁₀, _, h₁₁, rfl⟩ := hp
  apply fits_of_parts
  · simp only [List.forall_mem_cons]
    exact ⟨size (by decide) h₁, size (by decide) h₂, size (by decide) h₃, size (by decide) h₄, size (by decide) h₅, nofun⟩
  · simp only [ranges, List.map_cons, List.map_nil, List.forall_mem_cons]
    exact ⟨range (by decide) h₆, range (by decide) h₇, range (by decide) h₈, range (by decide) h₉, range (by decide) h₁₀,
      range (by decide) h₁₁, nofun⟩

theorem parse?_fits {text : String} {p : Profile} (h : parse? text = some p) : p.Fits := by
  obtain ⟨entries, hentries, hp⟩ := Option.bind_eq_some_iff.mp h
  exact ofEntries?_fits (Toml.parse?_bounded hentries) hp

theorem fits_of_mem_embedded {entry : String × Profile} (h : entry ∈ embedded) : entry.2.Fits := by
  simp only [embedded, List.mem_cons, List.not_mem_nil, or_false] at h
  rcases h with rfl | rfl | rfl <;> decide

theorem ofName_fits {name : String} {p : Profile} (h : ofName name = .ok p) : p.Fits := by
  unfold ofName named? at h
  cases hfind : embedded.find? (·.1 == name) with
  | none => simp [hfind] at h
  | some entry =>
    simp only [hfind, Option.map_some, Except.ok.injEq] at h
    exact h ▸ fits_of_mem_embedded (List.mem_of_find?_eq_some hfind)

/-- Another bound of dimensions in a word leaves the sizes in words. -/
theorem Fits.withBound {p : Profile} (h : p.Fits) {bound : Nat} (hbound : bound < limit64) :
    Fits { p with maxDimension := bound } := by
  intro n hn
  cases hn with
  | head => exact hbound
  | tail _ hn => exact h n (.tail _ hn)

end TensorFuzz.Profile
