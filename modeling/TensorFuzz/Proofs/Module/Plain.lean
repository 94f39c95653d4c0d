import TensorFuzz.Proofs.Module.Generation
import TensorFuzz.Proofs.Stmt.Plain

/-!
# Plain items

The functions and the records that are drawn consist of plain names, plain statements and spellings of plain types.
-/

namespace TensorFuzz

open Gen
open Gen.Plainly (quietly after)

variable {σ : Type} {p : Profile}

structure Parameter.Plain (param : Parameter) : Prop where
  ty : param.ty.Plain
  name : PlainName param.name

structure FieldDecl.Plain (field : FieldDecl) : Prop where
  ty : field.ty.Plain
  name : PlainName field.name

/-- All that stands in the function is plain, beside the word for what returns nothing. -/
structure Function.Plain (f : Function) : Prop where
  ty : f.ty = .plain .void ∨ f.ty.Plain
  name : PlainName f.name
  params : ∀ param ∈ f.params, param.Plain
  body : ∀ stmt ∈ f.body, stmt.Plain
  result : ∀ x ∈ f.result, x.Plain

inductive Item.Plain : Item → Prop
  | function {f : Function} : f.Plain → Plain (.function f)
  | record {id : String} {fields : List FieldDecl} : PlainName id → (∀ field ∈ fields, field.Plain) →
      Plain (.record id fields)

variable [RandomSource σ]

namespace Module

theorem drawParameter_plain {ty : Ty} (hty : ty.Plain ∧ ty ≠ .void) :
    Plainly (drawParameter p ty : Gen σ Parameter) Parameter.Plain := by
  refine (Plainly.freeName ty).bind fun name hname => (Plainly.spell hty).bind fun spelled hspelled => ?_
  exact Plainly.declare ⟨hname, hty.1, List.forall_mem_nil _⟩ (.pure ⟨hspelled, hname⟩)

theorem drawResult_plain {ty : Ty} (hty : ty.Plain) :
    Plainly (drawResult p ty : Gen σ (Option Expr)) fun result => ∀ x ∈ result, x.Plain := by
  refine .ite (fun _ => .pure nofun) fun _ => (Plainly.expr hty).bind fun x hx => .pure ?_
  rintro _ ⟨⟩
  exact hx

/-- A function with what its heading says. -/
theorem drawInside_plain {spelled : SpelledTy} {name : String} {ty : Ty} {paramTys : List Ty} (hty : ty.Plain)
    (hspelled : spelled = .plain .void ∨ spelled.Plain) (hname : PlainName name)
    (hparams : ∀ ty ∈ paramTys, ty.Plain ∧ ty ≠ .void) :
    Plainly (drawInside p spelled name ty paramTys : Gen σ Item) fun item => ∃ f, item = .function f ∧ f.Plain ∧
      f.ty = spelled ∧ f.name = name ∧ f.params.length = paramTys.length := by
  refine Plainly.nested ?_
  refine (Upholds.mapM fun ty hty => drawParameter_plain (hparams ty hty)).bind fun params ⟨hlength, hparams⟩ => ?_
  refine (Stmt.several_plain _).bind fun body hbody => (drawResult_plain hty).bind fun result hresult => .pure ?_
  exact ⟨_, rfl, ⟨hspelled, hname, hparams, hbody, hresult⟩, rfl, rfl, hlength⟩

theorem drawField_plain : Plainly (drawField p : Gen σ (Field × FieldDecl)) fun part =>
    (PlainName part.1.name ∧ part.1.ty.Plain) ∧ part.2.Plain := by
  refine (Plainly.ty false).bind fun ty hty => (Plainly.freeName ty).bind fun name hname => ?_
  refine Plainly.declare ⟨hname, hty.1, List.forall_mem_nil _⟩ (after (fun _ => Keeps.coin) fun isMutable => ?_)
  exact (Plainly.spell hty).bind fun spelled hspelled => .pure ⟨⟨hname, hty.1⟩, hspelled, hname⟩

theorem defineRecord_plain {id : String} {fields : List Field} (h : Shape.Plain ⟨id, fields⟩) :
    Plainly (defineRecord id fields : Gen σ Unit) fun _ => True := by
  refine Upholds.look fun e he => .fallible fun records hdefine => ?_
  refine (Upholds.put ⟨he.scope, ?_⟩).bind fun _ _ => quietly fun _ _ => Keeps.report
  rw [Registry.define] at hdefine
  split at hdefine
  · cases hdefine
  · cases hdefine
    exact List.forall_mem_append.mpr ⟨he.shapes, List.forall_mem_singleton.mpr h⟩

end Module

end TensorFuzz
