import TensorFuzz.Proofs.Module.Generation
import TensorFuzz.Proofs.Expr.Drawn

/-!
# Valid states throughout

Every operation of the generator goes through valid states only, whatever the words are and even if the profile lets
sizes wrap. So all states that the operations lead to are valid.
-/

namespace TensorFuzz

open Gen
open Name (Led firstWords)

variable {σ : Type} {p : Profile}

theorem FieldFrame.valid {e e' : Engine σ} (h : FieldFrame p e e') (he : e.Valid p) : e'.Valid p where
  bindings := fun frame hframe b hb => by
    rw [h.frames] at hframe
    rw [h.records]
    rcases List.mem_cons.mp hframe with rfl | hframe
    · exact (h.bindings b hb).1.mono (List.nil_subset _)
    · exact he.bindings frame hframe b hb
  shapes := h.records ▸ he.shapes
  ids := h.records ▸ he.ids

theorem entry_valid (records : Registry) (bound : Nat) :
    Binding.Valid records bound ⟨.function, Module.entryName, .void, []⟩ where
  name := (Name.Led.self Module.entryName).isReference (by decide) (by decide) (by decide)
  ty := .inl ⟨rfl, rfl⟩
  params := by simp

/-- Valid, with records that are named by the words for records. -/
structure Engine.Named (p : Profile) (e : Engine σ) : Prop where
  valid : e.Valid p
  records : ∀ id ∈ e.records.ids, Led (firstWords Name.records) id

theorem Engine.Named.registered {e : Engine σ} (h : e.Named p) {shape : Shape} (hshape : shape.Valid p)
    (hfree : shape.id ∉ e.records.ids) (hname : Led (firstWords Name.records) shape.id) :
    Engine.Named p { e with records := ⟨e.records.shapes ++ [shape]⟩ } where
  valid := h.valid.registered hshape hfree
  records := fun id hid => by
    rw [Registry.ids_append] at hid
    rcases List.mem_append.mp hid with hid | hid
    · exact h.records id hid
    · exact List.mem_singleton.mp hid ▸ hname

variable [RandomSource σ]

/-- Validity is an invariant of the generation of modules, whatever an expression has to be. -/
theorem ModuleSetting.ofValid {safe : Faults} {opens : Nat → Prop} {holds : Registry → Holding}
    (hroom : ∀ {depth : Nat}, safe .addOverflow → opens depth → depth + 1 < limit64)
    (hexpr : ∀ {e : Engine σ} {ty : Ty}, e.Valid p → ty.Sized e.records p.dimensionBound →
      Keeps safe e (Expr.generate p ty) (holds e.records e.scope ty))
    (hcall : ∀ {e : Engine σ} {b : Binding}, e.Valid p → b ∈ e.scope.visible →
      Keeps safe e (Expr.callAt p 0 b.name b.params) fun x =>
        ∃ args, x = .call b.name args ∧ (holds e.records).All e.scope args b.params)
    (hname : ∀ {e : Engine σ} {b : Binding}, e.Valid p → b ∈ e.scope.visible → b.isFunction = false →
      holds e.records e.scope b.ty (.name b.name)) :
    ModuleSetting p safe opens holds (Engine.Valid p (σ := σ)) (Engine.Valid p) (fun _ => True) fun _ => True where
  room := hroom
  valid := id
  agrees := Engine.Valid.agrees
  declared h hb _ _ := h.declared hb
  opened h _ := h.opened
  closed h houter := h.closed houter
  expr := hexpr
  call h hb _ := hcall h hb
  name := hname
  within := id
  naming h _ hframe _ := hframe.valid h
  function h hb _ _ _ := h.declared hb
  record h hshape hfree _ := h.registered hshape hfree
  entry h _ := h.declared (entry_valid _ _)
  free _ _ := trivial

theorem canNest_always (levels depth : Nat) : CanNest (fun _ => True) levels depth := by
  induction levels generalizing depth with
  | zero => trivial
  | succ levels ih => exact ⟨trivial, ih _⟩

theorem canHoldBody_always (depth : Nat) : CanHoldBody p (fun _ => True) depth := ⟨trivial, canNest_always _ _⟩

/-- Blocks are opened up to the statement depth of the profile, and for the bodies of functions. -/
def Profile.Opens (p : Profile) (depth : Nat) : Prop := depth < max p.maxStmtDepth 1

theorem Profile.Opens.fits {depth : Nat} (h : p.Opens depth) (hdepth : p.maxStmtDepth < limit64) :
    depth + 1 < limit64 := by
  unfold Profile.Opens limit64 at *
  omega

theorem canNest_opens {levels depth : Nat} (h : depth + levels ≤ max p.maxStmtDepth 1) :
    CanNest p.Opens levels depth := by
  induction levels generalizing depth with
  | zero => trivial
  | succ levels ih => exact ⟨show depth < _ by omega, ih (by omega)⟩

theorem canHoldBody_opens (p : Profile) : CanHoldBody p p.Opens 0 :=
  ⟨show 0 < _ by omega, canNest_opens (by omega)⟩

/-- Validity asks nothing of expressions. -/
theorem ModuleSetting.loose (p : Profile) :
    ModuleSetting p .none (fun _ => True) (fun _ _ _ _ => True) (Engine.Valid p (σ := σ)) (Engine.Valid p)
      (fun _ => True) fun _ => True :=
  .ofValid (fun hsafe _ => hsafe.elim) (fun _ _ => Expr.generate_quiet _) (fun _ _ => Expr.callAt_quiet _ _ _)
    fun _ _ _ => trivial

theorem ModuleSetting.named (p : Profile) :
    ModuleSetting p .none (fun _ => True) (fun _ _ _ _ => True) (Engine.Named p (σ := σ)) (Engine.Named p)
      (fun _ => True) fun _ => True where
  room hsafe _ := hsafe.elim
  valid := Engine.Named.valid
  agrees h he := ⟨h.valid.agrees he, he.records ▸ h.records⟩
  declared h hb _ _ := ⟨h.valid.declared hb, h.records⟩
  opened h _ := ⟨h.valid.opened, h.records⟩
  closed h houter := ⟨h.valid.closed houter, h.records⟩
  expr _ _ := Expr.generate_quiet _
  call _ _ _ := Expr.callAt_quiet _ _ _
  name _ _ _ := trivial
  within := id
  naming h _ hframe _ := ⟨hframe.valid h.valid, hframe.records ▸ h.records⟩
  function h hb _ _ _ := ⟨h.valid.declared hb, h.records⟩
  record h := h.registered
  entry h _ := ⟨h.valid.declared (entry_valid _ _), h.records⟩
  free _ _ := trivial

/-! ## Reachable states -/

/-- The operations that the generator is made of. -/
inductive Operation (p : Profile) (e : Engine σ) : {α : Type} → Gen σ α → Prop
  | draw {α : Type} (act : Draw σ α) : Operation p e (Gen.draw act)
  | report (event : Event) : Operation p e (Gen.report event)
  | openBlock : Operation p e Gen.openBlock
  | closeBlock : Operation p e Gen.closeBlock
  | operand (ty : Ty) (depth : Nat) : Operation p e (Expr.operand p ty depth)
  | level (level : Level) (depth : Nat) (ty : Ty) : Operation p e (Expr.atDepth p depth level ty)
  | literal (depth : Nat) (ty : Ty) : Operation p e (Expr.literalAt p depth ty)
  | call (depth : Nat) (function : String) (params : List Ty) : Operation p e (Expr.callAt p depth function params)
  | value {ty : Ty} : ty.Sized e.records p.dimensionBound → Operation p e (Stmt.drawValueOf p ty)
  | statement (kind : StmtKind) : Operation p e (Stmt.ofKind p (Stmt.generate p) kind)
  | statements (range : Range) : Operation p e (Stmt.several p range)
  | entry : Operation p e (Module.drawMain p)
  | function : Operation p e (Module.drawFunction p)
  | record : Operation p e (Module.drawRecord p)
  | items : Operation p e (Module.generate p)

/-- The states that the operations of the generator lead to, the states on the way included. -/
inductive Engine.Reachable (p : Profile) : Engine σ → Prop
  | start (supply : Supply σ) : Reachable p (Engine.start p supply)
  | during {α : Type} {act : Gen σ α} {e e' : Engine σ} : Reachable p e → Operation p e act → act.Visits e e' →
      Reachable p e'

section
variable {I J V : Engine σ → Prop} {free : Scope → Prop} {e : Engine σ}

theorem closeBlock_gives {opens : Nat → Prop} (s : Framing .none opens I) (h : I e) :
    Gives .none I (closeBlock : Gen σ Unit) e fun _ _ => True := by
  refine .get (.checked (fun _ _ => id) fun e' he' => ?_)
  obtain ⟨-, scope, hexit, rfl⟩ := Engine.leave_eq_ok_iff.mp he'
  unfold Scope.exit at hexit
  split at hexit
  · cases hexit
  · next frame outer hframes =>
    cases hexit
    exact (Gives.put (s.closed h hframes) rfl).post fun _ _ _ => trivial

/-- An operation keeps every invariant of the generation of modules that opens blocks and declares functions
anywhere. -/
theorem Operation.gives
    (s : ModuleSetting p .none (fun _ => True) (fun _ _ _ _ => True) I I (fun _ => True) fun _ => True) (h : I e)
    {α : Type} {act : Gen σ α} (hact : Operation p e act) : Gives .none I act e fun _ _ => True := by
  have hquiet {α : Type} {g : Gen σ α} {P : α → Prop} (hg : Keeps .none e g P) :
      Gives .none I g e fun _ _ => True :=
    (hg.within (fun _ => s.agrees h) (.refl e)).post fun _ _ _ => trivial
  have hthread {α : Type} {g : Gen σ α} {R : α → Scope → Prop} (hg : Threads .none I e g R) :
      Gives .none I g e fun _ _ => True := (hg e (.refl e)).post fun _ _ _ => trivial
  have hstmt {depth : Nat} : Setting.Makes .none (fun _ _ _ _ => True) I depth (Stmt.generate p) :=
    s.toSetting.generate (canNest_always _ _)
  cases hact with
  | draw act => exact hquiet (Keeps.anyDraw act)
  | report event => exact hquiet Keeps.report
  | openBlock => exact (Gives.openBlock False.elim (s.opened h trivial)).post fun _ _ _ => trivial
  | closeBlock => exact closeBlock_gives s.toFraming h
  | operand ty depth => exact hquiet (Expr.operand_drawn ty depth)
  | level level depth ty => exact hquiet (Expr.atDepth_drawn depth level ty)
  | literal depth ty => exact hquiet (Expr.literalAt_drawn depth ty)
  | call depth function params => exact hquiet (Expr.callAt_drawn depth function params)
  | value hty => exact hthread (s.drawValueOf h hty)
  | statement kind => exact hthread (s.ofKind h trivial hstmt kind)
  | statements range => exact hthread (s.several h (canNest_always _ _) range)
  | entry => exact hthread (s.drawMain h (canHoldBody_always _) trivial)
  | function => exact hthread (s.drawFunction h (canHoldBody_always _))
  | record => exact (s.drawRecord h fun _ _ => trivial).post fun _ _ _ => trivial
  | items => exact (s.generate h (canHoldBody_always _) trivial fun _ _ => trivial).post fun _ _ _ => trivial

theorem Engine.Reachable.keeps
    (s : ModuleSetting p .none (fun _ => True) (fun _ _ _ _ => True) I I (fun _ => True) fun _ => True)
    (hstart : ∀ supply, I (Engine.start p supply)) (h : e.Reachable p) : I e := by
  induction h with
  | start supply => exact hstart supply
  | during _ hact hvisits ih => exact (hact.gives s ih).of_visits ih hvisits

end

theorem Engine.Reachable.valid {e : Engine σ} (h : e.Reachable p) : e.Valid p := h.keeps (.loose p) (start_valid p)

theorem Engine.Reachable.named {e : Engine σ} (h : e.Reachable p) : e.Named p :=
  h.keeps (.named p) fun supply => ⟨start_valid p supply, fun _ hid => absurd hid List.not_mem_nil⟩

end TensorFuzz
