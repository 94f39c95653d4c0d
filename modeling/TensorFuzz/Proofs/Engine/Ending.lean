import TensorFuzz.Proofs.Engine.Drawn

/-!
# Computations that end

A run goes on too long in two ways only: in a draw that accepts no word, or in the literal of a record that contains
itself, which goes on until no word holds its depth. From a state whose supply is steady and whose records contain no
records neither can happen, whatever is drawn (`Gen.Ends`). The rules follow a generator as it is written, and ask
nothing of what it draws.
-/

namespace TensorFuzz

/-- No registered record has a field that is a record. -/
def Registry.Flat (records : Registry) : Prop :=
  ∀ shape ∈ records.shapes, ∀ field ∈ shape.fields, field.ty.recordId? = none

theorem Registry.Flat.getD_fields {records : Registry} (h : records.Flat) (id : String) :
    ∀ field ∈ (records.fields? id).getD [], field.ty.recordId? = none := by
  cases hfields : records.fields? id with
  | none => exact List.forall_mem_nil _
  | some fields => exact h ⟨id, fields⟩ (Registry.mem_of_fields? hfields)

theorem Registry.Flat.define {records records' : Registry} (h : records.Flat) {id : String} {fields : List Field}
    (hfields : ∀ field ∈ fields, field.ty.recordId? = none) (hdefine : records.define id fields = .ok records') :
    records'.Flat := by
  unfold Registry.define at hdefine
  split at hdefine
  · cases hdefine
  · cases hdefine
    intro shape hshape
    rcases List.mem_append.mp hshape with hshape | hshape
    · exact h shape hshape
    · cases List.mem_singleton.mp hshape
      exact hfields

variable {σ : Type} {α β : Type} [RandomSource σ]

/-- The faults of a run that goes on too long: a draw without end and, where words are `roomy` enough for the literals
behind the last depth, an operand that no depth is left for. -/
def Faults.lasting (roomy : Prop) : Faults := fun fault => fault = .endless ∨ fault = .depthOverflow ∧ roomy

/-- A check fails in no fault of a run that lasts. -/
def Brief (roomy : Prop) (result : Except Fault α) : Prop :=
  ∀ fault, result = .error fault → ¬ Faults.lasting roomy fault

theorem Brief.bind {roomy : Prop} {result : Except Fault α} {f : α → Except Fault β} (h : Brief roomy result)
    (hf : ∀ a, Brief roomy (f a)) : Brief roomy (result >>= f) := by
  cases result with
  | error fault => exact fun _ heq => h _ (by cases heq; rfl)
  | ok a => exact hf a

theorem Scope.exit_brief {roomy : Prop} (scope : Scope) : Brief roomy scope.exit := by
  unfold Scope.exit
  split
  · rintro _ ⟨⟩
    simp [Faults.lasting]
  · exact nofun

omit [RandomSource σ] in
theorem Engine.leave_brief {roomy : Prop} (e : Engine σ) : Brief roomy e.leave := by
  unfold Engine.leave
  split
  · rintro _ ⟨⟩
    simp [Faults.lasting]
  · intro fault hfault
    cases hexit : e.scope.exit with
    | error fault' =>
      rw [hexit] at hfault
      cases hfault
      exact e.scope.exit_brief _ hexit
    | ok scope =>
      rw [hexit] at hfault
      cases hfault

namespace Gen

/-- From every state whose records contain no records, the computation goes on only as long as its draws. -/
def Ends (roomy : Prop) (g : Gen σ α) (P : α → Prop := fun _ => True) : Prop :=
  Within (.lasting roomy) (fun e => e.records.Flat) g P

namespace Ends

variable {roomy : Prop} {g g' : Gen σ α} {f : α → Gen σ β} {P P' : α → Prop} {Q : β → Prop}

theorem not_lasting {e : Engine σ} (h : Ends roomy g P) (hflat : e.records.Flat) (hsteady : e.supply.Steady) :
    Brief roomy (g.run e) := by
  rcases (h e hflat).run_or hsteady with ⟨a, e', hrun, -⟩ | ⟨fault, hrun, hfault⟩
  · rw [hrun]
    exact nofun
  · rw [hrun]
    rintro _ ⟨⟩
    exact hfault

theorem mono (h : Ends roomy g P) (hP : ∀ a, P a → P' a) : Ends roomy g P' := Within.mono h hP

theorem pure {a : α} (h : P a) : Ends roomy (Pure.pure a : Gen σ α) P := Within.pure h

theorem bind (h : Ends roomy g P) (hf : ∀ a, P a → Ends roomy (f a) Q) : Ends roomy (g >>= f) Q := Within.bind h hf

/-- The result of the first part does not matter. -/
theorem andThen (h : Ends roomy g P) (hf : ∀ a, Ends roomy (f a) Q) : Ends roomy (g >>= f) Q := h.bind fun a _ => hf a

theorem look {f : Engine σ → Gen σ β} (hf : ∀ e : Engine σ, e.records.Flat → Ends roomy (f e) Q) :
    Ends roomy (MonadState.get >>= f) Q := Within.look hf

theorem ite {c : Prop} [Decidable c] (h : c → Ends roomy g P) (h' : ¬ c → Ends roomy g' P) :
    Ends roomy (if c then g else g') P := Within.ite h h'

/-- What declares nothing keeps the records. -/
theorem of_keeps (h : ∀ e₀ : Engine σ, Keeps (.lasting roomy) e₀ g P) : Ends roomy g P := fun e he => by
  have hflat (e' : Engine σ) (he' : e.Agrees e') : e'.records.Flat := by rwa [he'.records]
  exact ((h e).within hflat (.refl e)).post fun _ e' ⟨ha, he'⟩ => ⟨ha, hflat e' he'⟩

theorem draw {act : Draw σ α} (h : act.Yields P) : Ends roomy (Gen.draw act) P := .of_keeps fun _ => .draw h

/-- A check may fail, but not for ever. -/
theorem orFault {result : Except Fault α} (hresult : Brief roomy result)
    (hf : ∀ a, result = .ok a → Ends roomy (f a) Q) : Ends roomy (Gen.orFault result >>= f) Q :=
  Within.checked hresult hf

theorem update {f : Engine σ → Engine σ} (h : ∀ e, e.records.Flat → (f e).records.Flat)
    (hsupply : ∀ e, (f e).supply = e.supply) : Ends roomy (modify f : Gen σ PUnit) := Within.update h hsupply

theorem times (h : Ends roomy g P) (n : Nat) : Ends roomy (Gen.times g n) fun as => ∀ a ∈ as, P a :=
  (Within.times h n).mono fun _ has => has.2

theorem mapM {f : α → Gen σ β} {xs : List α} (h : ∀ x ∈ xs, Ends roomy (f x)) : Ends roomy (xs.mapM f) :=
  (Within.mapM h).mono fun _ _ => trivial

/-! ## Primitives -/

theorem chance (p : Probability) : Ends roomy (Gen.chance p : Gen σ Bool) := .of_keeps fun _ => .chance p

theorem coin : Ends roomy (Gen.coin : Gen σ Bool) := .chance _

theorem kind : Ends roomy (Gen.kind : Gen σ Kind) := .of_keeps fun _ => .kind

theorem pick? (xs : List α) : Ends roomy (Gen.pick? xs : Gen σ (Option α)) fun found => ∀ a ∈ found, a ∈ xs :=
  .of_keeps fun _ => (Keeps.pick? xs).mono fun _ h => h.2

theorem dimension (p : Profile) : Ends roomy (Gen.dimension p : Gen σ Nat) := .of_keeps fun _ =>
  (Keeps.dimension p).mono fun _ _ => trivial

theorem constant (p : Profile) {value : Int} (h : Fits64 value) : Ends roomy (Gen.constant p value : Gen σ ConstExpr) :=
  .draw ((Constant.synthesize_yields _ h).mono fun _ _ => trivial)

theorem countIn (range : Range) : Ends roomy (Gen.countIn range : Gen σ Nat) := .of_keeps fun _ =>
  (Keeps.countIn range).mono fun _ _ => trivial

theorem tensorTy (p : Profile) (vector : Probability) : Ends roomy (Gen.tensorTy p vector : Gen σ Ty) := .of_keeps fun _ =>
  (Keeps.tensorTy p vector .empty).mono fun _ _ => trivial

theorem ty (p : Profile) (allowRecords : Bool) : Ends roomy (Gen.ty p allowRecords : Gen σ Ty) := .of_keeps fun _ =>
  (Keeps.ty p allowRecords).mono fun _ _ => trivial

/-- Where records are not allowed, the type is no record. -/
theorem plainTy (p : Profile) : Ends roomy (Gen.ty p false : Gen σ Ty) (·.recordId? = none) := .of_keeps fun _ =>
  (Keeps.ty p false).mono fun ty hty => by
    cases ty with
    | record => cases hty
    | _ => rfl

theorem spell (p : Profile) (ty : Ty) : Ends roomy (Gen.spell p ty : Gen σ SpelledTy) := .of_keeps fun _ =>
  (Keeps.spell p ty).mono fun _ _ => trivial

theorem freeName (ty : Ty) : Ends roomy (Gen.freeName ty : Gen σ String) := .of_keeps fun _ =>
  (Keeps.freeName ty).mono fun _ _ => trivial

theorem freeFunctionName (ty : Ty) : Ends roomy (Gen.freeFunctionName ty : Gen σ String) := .of_keeps fun _ =>
  (Keeps.freeFunctionName ty).mono fun _ _ => trivial

theorem modifyScope (f : Scope → Scope) : Ends roomy (Gen.modifyScope f : Gen σ Unit) := .update (fun _ => id) fun _ => rfl

theorem report (event : Event) : Ends roomy (Gen.report event : Gen σ Unit) := .of_keeps fun _ => .report

theorem openBlock : Ends roomy (Gen.openBlock : Gen σ Unit) := fun e he => by
  have hopened : e.opened.records.Flat := he
  refine (Gives.openBlock (fun hsafe => ?_) hopened).post fun _ e' heq => ⟨trivial, heq ▸ hopened⟩
  simp [Faults.lasting] at hsafe

theorem closeBlock : Ends roomy (Gen.closeBlock : Gen σ Unit) := fun e he => by
  refine .get (.checked e.leave_brief fun e' he' => ?_)
  obtain ⟨-, scope, -, rfl⟩ := Engine.leave_eq_ok_iff.mp he'
  exact ⟨he, fun _ => id, trivial, he⟩

theorem nested (h : Ends roomy g) : Ends roomy (Gen.nested g) :=
  openBlock.andThen fun _ => h.andThen fun _ => closeBlock.andThen fun _ => .pure trivial

end Ends

end Gen

end TensorFuzz
