import TensorFuzz.Expr.Generate
import TensorFuzz.Proofs.Engine.Run
import TensorFuzz.Proofs.Engine.Valid

/-!
# Generated literals and references

The literals and the uses of bindings that the atoms of expressions are drawn from have the type that was asked
for, if the generator of their parts is sound.
-/

namespace TensorFuzz

open Check (listTy indexCount labelledTy)

/-- A list of numbers of one kind is a vector. -/
theorem listTy_entries (kind : Kind) (n : Nat) :
    listTy (List.replicate (n + 1) (.ofKind kind)) = .ok (.vector kind (n + 1)) := by
  rw [List.replicate_succ]
  cases kind <;> simp [listTy, Ty.ofKind]

/-- A list of vectors of one type is a matrix. -/
theorem listTy_rows (kind : Kind) (cols n : Nat) :
    listTy (List.replicate (n + 1) (.vector kind cols)) = .ok (.matrix kind (n + 1) cols) := by
  rw [List.replicate_succ]
  simp [listTy]

/-- How deep the parts of a literal of the type nest that may be drawn as expressions, if records contain no
records. -/
def Ty.nesting : Ty → Nat
  | .record _ => 2
  | .vector .. | .matrix .. => 1
  | _ => 0

theorem Ty.nesting_le_one {ty : Ty} (h : ty.recordId? = none) : ty.nesting ≤ 1 := by
  cases ty with
  | record => cases h
  | _ => simp [nesting]

theorem Ty.nesting_le_two (ty : Ty) : ty.nesting ≤ 2 := by cases ty <;> simp [nesting]

namespace Expr

open Gen

variable {σ : Type} [RandomSource σ] {safe : Faults}

/-- The expressions of a type at a level, where the declarations are those of the state. -/
abbrev Fits (e₀ : Engine σ) (level : Level) (ty : Ty) (x : Expr) : Prop := x.HasType e₀.scope e₀.records level ty

/-- The generators give expressions of the type asked for, up to a bound of its dimensions. -/
def Sound (safe : Faults) (e₀ : Engine σ) (gen : Levels σ) (bound : Nat) : Prop :=
  ∀ level ty, ty.Sized e₀.records bound → Keeps safe e₀ (gen level ty) (Fits e₀ level ty)

variable {p : Profile} {e₀ : Engine σ} {bound : Nat}

theorem Sound.anti {gen : Levels σ} {bound' : Nat} (h : Sound safe e₀ gen bound') (hle : bound ≤ bound') :
    Sound safe e₀ gen bound := fun level ty hty => h level ty (hty.widen hle)

/-- What is generated as a complete operand may be a part of another expression. -/
theorem Sound.part {gen : Levels σ} (h : Sound safe e₀ gen bound) {ty : Ty} (hty : ty.Sized e₀.records bound) :
    Keeps safe e₀ (gen .whole ty) (Fits e₀ .select ty) := (h .whole ty hty).mono fun _ hx => hx.of_whole rfl

/-! ## Literals -/

/-- A string that literals are picked from has no quote inside. -/
theorem strings_quotable : ∀ s ∈ strings, '"' ∉ s.toList := by decide

section
variable {I : Engine σ → Prop} {scope : Scope} {records : Registry} (hI : Engine.Registering I records)
  {inner : Ty → Gen σ Expr}
include hI

theorem intLiteral_within :
    Within safe I (intLiteral : Gen σ Expr) (·.HasType scope records .atom .int) :=
  (Within.draw hI.draw (Draw.below_yields .short (by decide))).bind fun n hn =>
    .pure (.int (by unfold Fits128; omega))

theorem floatLiteral_within :
    Within safe I (floatLiteral : Gen σ Expr) (·.HasType scope records .atom .float) :=
  (Within.draw hI.draw Draw.hundredThousandths_yields).bind fun n _ => .pure (.float n)

theorem entryLiteral_within (hfloat : Within safe I (inner .float) (·.HasType scope records .select .float))
    (kind : Kind) : Within safe I (entryLiteral inner kind) (·.HasType scope records .select (.ofKind kind)) := by
  cases kind with
  | int => exact (intLiteral_within hI).mono fun _ hx => hx.loosen (by decide)
  | float =>
    refine (Within.draw hI.draw (Draw.chance_yields _)).bind fun _ _ => .ite (fun _ => ?_) fun _ => hfloat
    exact (floatLiteral_within hI).mono fun _ hx => hx.loosen (by decide)

theorem vectorLiteral_within (hfloat : Within safe I (inner .float) (·.HasType scope records .select .float))
    (kind : Kind) {length : Nat} (hlength : 1 ≤ length) :
    Within safe I (vectorLiteral inner kind length) (·.HasType scope records .atom (.vector kind length)) := by
  refine ((entryLiteral_within hI hfloat kind).times length).bind fun items hitems => .pure ?_
  obtain ⟨n, rfl⟩ : ∃ n, length = n + 1 := ⟨length - 1, by omega⟩
  refine .list hitems.2 ?_
  rw [List.map_const', hitems.1, listTy_entries]

theorem drawLiteral_within {ty : Ty} (hty : ty.Sized records bound)
    (hfloat : ty.isTensor = true → Within safe I (inner .float) (·.HasType scope records .select .float))
    (hfields : ∀ id fields, ty = .record id → records.fields? id = some fields →
      ∀ field ∈ fields, Within safe I (inner field.ty) (·.HasType scope records .select field.ty))
    (hshapes : ∀ id fields, records.fields? id = some fields → Shape.Valid p ⟨id, fields⟩) :
    Within safe I (drawLiteral inner ty) (·.HasType scope records .atom ty) := by
  cases ty with
  | bool =>
    have hcoin : Within safe I (coin : Gen σ Bool) fun _ => True := .draw hI.draw (Draw.chance_yields (.ratio 1 2))
    rw [drawLiteral]
    exact hcoin.bind fun b _ => .pure (.bool b)
  | int => exact intLiteral_within hI
  | float => exact floatLiteral_within hI
  | string =>
    refine (Within.draw hI.draw (Draw.pick?_yields strings)).bind fun found hfound => .pure (.string ?_)
    cases found with
    | none => decide
    | some s => exact strings_quotable s (hfound.2 s rfl)
  | void => exact hty.elim
  | vector kind length => exact vectorLiteral_within hI (hfloat rfl) kind hty.1
  | matrix kind rows cols =>
    refine ((vectorLiteral_within hI (hfloat rfl) kind hty.2.1).times rows).bind fun items hitems => .pure ?_
    obtain ⟨n, rfl⟩ : ∃ n, rows = n + 1 := ⟨rows - 1, by have := hty.1.1; omega⟩
    refine .list (fun x hx => (hitems.2 x hx).loosen (by decide)) ?_
    rw [List.map_const', hitems.1, listTy_rows]
  | record id =>
    obtain ⟨fields, hfind⟩ := Registry.fields?_of_mem_ids hty
    refine Within.look fun e he => ?_
    rw [hI.records e he, hfind]
    refine (Within.mapM (hfields id fields rfl hfind)).bind fun values hvalues => .pure ?_
    exact .record (hshapes id fields hfind).id hfind hvalues.1 hvalues.2

end

section
variable {I : Engine σ → Prop} {scope : Scope} {records : Registry} (hI : Engine.Registering I records)
  (hshapes : ∀ id fields, records.fields? id = some fields → Shape.Valid p ⟨id, fields⟩)
  (hbound : p.dimensionBound ≤ bound)
include hI hshapes hbound

/-- The literals past the last depth need as much room as they nest. -/
theorem closedLiteral_within {room : Nat} {ty : Ty} (hty : ty.Sized records bound)
    (hdeep : safe .depthOverflow → ty.nesting < room) :
    Within safe I (closedLiteral room ty) (·.HasType scope records .atom ty) := by
  induction room generalizing ty with
  | zero => exact fun _ _ hsafe => absurd (hdeep hsafe) (Nat.not_lt_zero _)
  | succ room ih =>
    refine drawLiteral_within hI hty (fun htensor => ?_) (fun id fields hid hfields field hfield => ?_) hshapes
    · have hnesting : ty.nesting = 1 := by cases ty <;> first | rfl | cases htensor
      have hfloat : Within safe I (closedLiteral room .float) (·.HasType scope records .atom .float) :=
        ih trivial fun hsafe => show 0 < room by have := hdeep hsafe; omega
      exact hfloat.mono fun _ hx => hx.loosen (by decide)
    · subst hid
      have hfieldTy := (hshapes id fields hfields).tys field hfield
      have hrecord : (Ty.record id).nesting = 2 := rfl
      have hnesting := Ty.nesting_le_one hfieldTy.recordId?
      have hsized := hfieldTy.mono (List.nil_subset records.ids) hbound
      refine (ih hsized fun hsafe => ?_).mono fun _ hx => hx.loosen (by decide)
      have := hdeep hsafe
      omega

end

theorem closed_sound (hvalid : e₀.Valid p) (hbound : p.dimensionBound ≤ bound) {room : Nat}
    (hdeep : safe .depthOverflow → 3 ≤ room) : Sound safe e₀ (closed room : Levels σ) bound := by
  intro level ty hty
  have hnesting := ty.nesting_le_two
  have hliteral : Keeps safe e₀ (closedLiteral room ty) (Fits e₀ .atom ty) :=
    closedLiteral_within (.agrees e₀) (fun _ _ => hvalid.fields) hbound hty fun hsafe => by
      have := hdeep hsafe
      omega
  exact hliteral.mono fun _ hx => hx.loosen (by cases level <;> decide)

end Expr

end TensorFuzz
