import TensorFuzz.CommandLine.Run
import TensorFuzz.Proofs.CommandLine.Arguments
import TensorFuzz.Proofs.Profile.Fits
import TensorFuzz.Proofs.Random.Draws

/-!
# The profile of a run

Which profile is in effect for the arguments of a run (`Settles`). It can be used, its sizes fit 64-bit words, and there
is at most one; where there is none, the run stops with an error of its own (`settled`), never with a fault.
-/

namespace TensorFuzz.CommandLine

/-- The profile of a name, among the files of a working directory: an embedded one, or the one of a document that can be
used. -/
inductive Loads (files : FileTree) (name : String) : Profile → Prop
  | embedded {p : Profile} : Profile.isPath name = false → Profile.named? name = some p → Loads files name p
  | document {bytes : ByteArray} {text : String} {p : Profile} : Profile.isPath name = true →
    files.read name = .ok bytes → String.fromUTF8? bytes = some text → Profile.parse? text = some p →
    p.invalid? = none → Loads files name p

/-- The profile in effect for the arguments: the one that they name, with the bound of dimensions that they give, if it
can be used. -/
inductive Settles (files : FileTree) (args : Arguments) : Profile → Prop
  | loaded {p : Profile} : args.maxDimension = none → Loads files args.profile p → Settles files args p
  | bounded {p : Profile} {bound : Nat} : args.maxDimension = some bound → Loads files args.profile p →
    Profile.invalid? { p with maxDimension := bound } = none → Settles files args { p with maxDimension := bound }

def loaded (files : FileTree) (name : String) : Except RunError Profile :=
  if Profile.isPath name then Profile.ofContent name (files.read name) else Profile.ofName name

/-- The profile in effect, or the error that a run stops at without one. -/
def settled (files : FileTree) (args : Arguments) : Except RunError Profile :=
  loaded files args.profile >>= effective args

variable {files : FileTree} {args : Arguments} {name : String} {p : Profile} {e : RunError}

theorem ofName_of_named? (h : Profile.named? name = some p) : Profile.ofName name = .ok p := by
  rw [Profile.ofName, h]

theorem loaded_eq_ok_iff : loaded files name = .ok p ↔ Loads files name p := by
  unfold loaded
  constructor
  · intro h
    split at h
    · next hpath =>
      unfold Profile.ofContent at h
      split at h
      · cases h
      · next hread =>
        split at h
        · cases h
        · next htext =>
          split at h
          · cases h
          · next hparse =>
            obtain ⟨rfl, husable⟩ := Profile.eq_of_accept h
            exact .document hpath hread htext hparse husable
    · next hpath =>
      unfold Profile.ofName at h
      split at h
      · cases h
      · next hnamed => cases h; exact .embedded (Bool.eq_false_iff.mpr hpath) hnamed
  · intro h
    cases h with
    | embedded hpath hnamed => rw [hpath, ofName_of_named? hnamed]; rfl
    | document hpath hread htext hparse husable =>
      rw [if_pos hpath, hread]
      simp only [Profile.ofContent, htext, hparse, Profile.accept, husable]

theorem settled_eq_ok_iff : settled files args = .ok p ↔ Settles files args p := by
  constructor
  · intro h
    obtain ⟨q, hloaded, h⟩ := exists_of_bind_ok h
    have hloads := loaded_eq_ok_iff.mp hloaded
    unfold effective at h
    split at h
    · next hbound => cases h; exact .loaded hbound hloads
    · next bound hbound =>
      obtain ⟨rfl, husable⟩ := Profile.eq_of_accept h
      exact .bounded hbound hloads husable
  · intro h
    cases h with
    | loaded hbound hloads => rw [settled, loaded_eq_ok_iff.mpr hloads, ok_bind, effective, hbound]
    | bounded hbound hloads husable =>
      rw [settled, loaded_eq_ok_iff.mpr hloads, ok_bind, effective, hbound]
      dsimp only
      rw [Profile.accept, husable]

theorem exitCode_of_loaded_error (h : loaded files name = .error e) : e.exitCode = 1 := by
  unfold loaded Profile.ofContent Profile.ofName Profile.accept at h
  split at h
  · split at h
    · cases h; rfl
    · split at h
      · cases h; rfl
      · split at h
        · cases h; rfl
        · split at h
          all_goals cases h
          rfl
  · split at h
    all_goals cases h
    rfl

theorem exitCode_of_settled_error (h : settled files args = .error e) : e.exitCode = 1 := by
  unfold settled at h
  cases hloaded : loaded files args.profile with
  | error e =>
    rw [hloaded] at h
    cases h
    exact exitCode_of_loaded_error hloaded
  | ok q =>
    rw [hloaded, ok_bind] at h
    unfold effective Profile.accept at h
    split at h
    · cases h
    · split at h
      all_goals cases h
      rfl

theorem Loads.usable (h : Loads files name p) : p.invalid? = none := by
  cases h with
  | embedded hpath hnamed => exact Profile.invalid?_of_ofName (ofName_of_named? hnamed)
  | document _ _ _ _ husable => exact husable

theorem Loads.fits (h : Loads files name p) : p.Fits := by
  cases h with
  | embedded hpath hnamed => exact Profile.ofName_fits (ofName_of_named? hnamed)
  | document _ _ _ hparse _ => exact Profile.parse?_fits hparse

theorem Settles.usable (h : Settles files args p) : p.invalid? = none := by
  cases h with
  | loaded _ hloads => exact hloads.usable
  | bounded _ _ husable => exact husable

theorem Settles.unique {q : Profile} (h : Settles files args p) (h' : Settles files args q) : p = q := by
  rw [← settled_eq_ok_iff] at h h'
  exact Except.ok.inj (h.symm.trans h')

theorem Settles.fits (hargs : args.Fits) (h : Settles files args p) : p.Fits := by
  cases h with
  | loaded _ hloads => exact hloads.fits
  | bounded hbound hloads _ => exact hloads.fits.withBound (hargs.maxDimension _ hbound)

end TensorFuzz.CommandLine
