import TensorFuzz.Proofs.Expr.Occurrences
import TensorFuzz.Proofs.Module.Soundness
import TensorFuzz.Profile.Embedded

/-!
# Declared values

The initial value of a declaration is drawn before its name, from everything that is visible. The name is free in the
innermost frame only, so the initial value may refer to that very name where the declaration hides an outer one, and
nowhere else.
-/

namespace TensorFuzz.Stmt

open Gen

variable {σ : Type} [RandomSource σ] {p : Profile}

/-- The ways to declare a value. -/
inductive ValueProducer (p : Profile) : Gen σ Stmt → Prop
  | ofTy (ty : Ty) : ValueProducer p (drawValueOf p ty)
  | any : ValueProducer p (drawValue p)

/-- The statement declares a value of a name that the innermost frame does not declare. The initial value refers to
visible bindings, and to one of the declared name only if an outer frame declares it. -/
inductive DeclaresValue (scope : Scope) : Stmt → Prop
  | intro {spelled : SpelledTy} {name : String} {init : Expr} : name ∉ scope.currentNames →
      (∀ id, init.RefersTo id → ∃ b ∈ scope.visible, b.name = id) →
      (init.RefersTo name → ∃ frame ∈ scope.outer, ∃ b ∈ frame, b.name = name) →
      DeclaresValue scope (.declareValue spelled name init)

/-- A visible name that the innermost frame does not declare is declared further out. -/
theorem exists_outer_frame {scope : Scope} {b : Binding} (hb : b ∈ scope.visible)
    (hname : b.name ∉ scope.currentNames) : ∃ frame ∈ scope.outer, b ∈ frame := by
  obtain ⟨frame, hframe, hmem⟩ := Scope.exists_frame_of_mem_visible hb
  rcases List.mem_cons.mp hframe with rfl | hframe
  · exact absurd (List.mem_map_of_mem hmem) hname
  · exact ⟨frame, hframe, hmem⟩

theorem drawValueOf_declares {e₀ e : Engine σ} (hvalid : e₀.Valid p) (he : e₀.Agrees e) (ty : Ty) :
    Gives .none (fun _ => True) (drawValueOf p ty) e fun stmt _ => DeclaresValue e₀.scope stmt := by
  have hfree (e : Engine σ) (_ : e₀.Agrees e) : True := trivial
  refine ((Expr.generate_drawn ty).within hfree he).bind fun init e₁ ⟨hinit, h₁⟩ => ?_
  refine ((Keeps.freeName ty).within hfree h₁).bind fun name e₂ ⟨hname, h₂⟩ => ?_
  refine ((Keeps.spell p ty).within hfree h₂).bind fun spelled e₃ _ => ?_
  refine (Gives.update trivial rfl).bind fun _ _ _ => .pure ?_
  have hvisible (id : String) (hid : init.RefersTo id) := hinit.exists_binding hvalid hid
  refine .intro hname.1 hvisible fun hself => ?_
  obtain ⟨b, hb, rfl⟩ := hvisible name hself
  obtain ⟨frame, hframe, hmem⟩ := exists_outer_frame hb hname.1
  exact ⟨frame, hframe, b, hmem, rfl⟩

/-- From every reachable state, an initial value refers to the declared name only where an outer frame declares that
name as well. -/
theorem value_refers_outward {e e' : Engine σ} (hreachable : e.Reachable p) {g : Gen σ Stmt} (hg : ValueProducer p g)
    {stmt : Stmt} (hrun : g.run e = .ok (stmt, e')) : DeclaresValue e.scope stmt := by
  have hvalid := hreachable.valid
  cases hg with
  | ofTy ty => exact (drawValueOf_declares hvalid (.refl e) ty).of_run hrun
  | any =>
    have hty : Keeps .none e (Gen.ty p true) _ := Keeps.ty p true
    have hdrawn := hty.within (I := fun _ => True) (fun _ _ => trivial) (.refl e)
    exact (hdrawn.bind fun ty e₁ ⟨_, h₁⟩ => drawValueOf_declares hvalid h₁ ty).of_run hrun

/-- A value, and in a block behind it another one that hides it. The initial value of the second refers to the first. -/
theorem value_refers_outward_hidden :
    let e : Engine Congruential := Engine.start Profile.small ⟨⟨796⟩, fun _ => 9⟩
    ∃ first e₁ e₂ stmt e', (drawValueOf Profile.small .int).run e = .ok (first, e₁) ∧
      openBlock.run e₁ = .ok ((), e₂) ∧ (drawValueOf Profile.small .int).run e₂ = .ok (stmt, e') ∧
        stmt.text = "val int res = res ;" ∧ DeclaresValue e₂.scope stmt := by
  intro e
  let both : Gen Congruential Stmt := do
    let _ ← drawValueOf Profile.small .int
    openBlock
    drawValueOf Profile.small .int
  have hdrawn : (both.run e).toOption.map (fun made => made.1.text) = some "val int res = res ;" := by decide +kernel
  obtain ⟨⟨stmt, e'⟩, hrun, htext⟩ := exists_of_toOption_map hdrawn
  obtain ⟨first, e₁, hfirst, hrun⟩ := exists_of_run_bind hrun
  obtain ⟨_, e₂, hopen, hrun⟩ := exists_of_run_bind hrun
  have hsized : Ty.int.Sized e.records Profile.small.dimensionBound := trivial
  have houter : e₁.Reachable Profile.small := .during (.start _) (.value hsized) (visits_of_run hfirst)
  have hinner : e₂.Reachable Profile.small := .during houter .openBlock (visits_of_run hopen)
  exact ⟨first, e₁, e₂, stmt, e', hfirst, hopen, hrun, htext, value_refers_outward hinner (.ofTy .int) hrun⟩

end TensorFuzz.Stmt
