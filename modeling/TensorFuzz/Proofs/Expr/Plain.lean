import TensorFuzz.Proofs.Engine.Valid
import TensorFuzz.Proofs.Expr.Drawn
import TensorFuzz.Proofs.Expr.Tokens
import TensorFuzz.Proofs.Text.Clear
import TensorFuzz.Proofs.Ty.Sized

/-!
# Plain expressions

An expression is plain if its text consists of plain names, of strings that the generator knows and of what the syntax
itself writes. Where all declared names are plain, so is every expression that is drawn there.
-/

namespace TensorFuzz

/-! ## Types -/

/-- The type is no record, or one with a plain name. -/
def Ty.Plain : Ty → Prop
  | .record id => PlainName id
  | _ => True

theorem Ty.plain_ofKind (kind : Kind) : (Ty.ofKind kind).Plain := by cases kind <;> trivial

theorem Ty.Plain.elementTy {ty : Ty} (h : ty.Plain) : ty.elementTy.Plain := by
  cases ty with
  | vector kind => exact plain_ofKind kind
  | matrix kind => exact plain_ofKind kind
  | _ => exact h

/-- A spelling of a plain type with values. -/
inductive SpelledTy.Plain : SpelledTy → Prop
  | plain {ty : Ty} : ty.isTensor = false → ty ≠ .void → ty.Plain → Plain (.plain ty)
  | vector (kind : Kind) (length : ConstExpr) : Plain (.vector kind length)
  | matrix (kind : Kind) (rows cols : ConstExpr) : Plain (.matrix kind rows cols)

theorem SpelledTy.plain_of_spells {spelled : SpelledTy} {ty : Ty} (h : spelled.Spells ty) (hty : ty.Plain)
    (hvoid : ty ≠ .void) : spelled.Plain := by
  cases h with
  | plain htensor => exact .plain htensor hvoid hty
  | vector => exact .vector _ _
  | matrix => exact .matrix _ _ _

/-- The spelling of what a function returns. -/
theorem SpelledTy.void_or_plain_of_spells {spelled : SpelledTy} {ty : Ty} (h : spelled.Spells ty)
    (hty : ty = .void ∨ ty.Plain ∧ ty ≠ .void) : spelled = .plain .void ∨ spelled.Plain := by
  rcases hty with rfl | ⟨hplain, hvoid⟩
  · cases h
    exact .inl rfl
  · exact .inr (plain_of_spells h hplain hvoid)

/-! ## Declarations -/

/-- The names of the binding and of its types are plain. -/
structure Binding.Plain (b : Binding) : Prop where
  name : PlainName b.name
  ty : b.ty.Plain
  params : ∀ ty ∈ b.params, ty.Plain

/-- The names of the record and of its fields are plain, and so are those of their types. -/
structure Shape.Plain (shape : Shape) : Prop where
  id : PlainName shape.id
  fields : ∀ field ∈ shape.fields, PlainName field.name ∧ field.ty.Plain

namespace Registry

variable {records : Registry} (h : ∀ shape ∈ records.shapes, shape.Plain)
include h

theorem plain_of_mem_fields? {id : String} {fields : List Field} (hfields : records.fields? id = some fields) :
    ∀ field ∈ fields, PlainName field.name ∧ field.ty.Plain :=
  (h _ (Registry.mem_of_fields? hfields)).fields

theorem plain_of_fields? {id : String} :
    ∀ field ∈ (records.fields? id).getD [], PlainName field.name ∧ field.ty.Plain := by
  cases hfields : records.fields? id with
  | none => exact List.forall_mem_nil _
  | some fields => exact plain_of_mem_fields? h hfields

theorem plain_of_fieldOfTy? {id : String} {ty : Ty} {field : Field} (hfield : records.fieldOfTy? id ty = some field) :
    PlainName field.name ∧ field.ty.Plain := by
  obtain ⟨fields, hfields, hfind⟩ := Option.bind_eq_some_iff.mp hfield
  exact plain_of_mem_fields? h hfields field (List.mem_of_find?_eq_some hfind)

end Registry

namespace Expr

/-! ## Trees -/

/-- All names in the expression are plain, and all its strings are among those that the generator knows. -/
inductive Plain : Expr → Prop
  | nothing : Plain .nothing
  | bool (value : Bool) : Plain (.bool value)
  | int (value : Nat) : Plain (.int value)
  | float (parts : Nat) : Plain (.float parts)
  | string {content : String} : content ∈ strings → Plain (.string content)
  | list {items : List Expr} : (∀ x ∈ items, Plain x) → Plain (.list items)
  | record {id : String} {values : List Expr} : PlainName id → (∀ x ∈ values, Plain x) → Plain (.record id values)
  | name {id : String} : PlainName id → Plain (.name id)
  | call {function : String} {args : List Expr} : PlainName function → (∀ x ∈ args, Plain x) →
      Plain (.call function args)
  | field {source : Expr} {label : String} : Plain source → PlainName label → Plain (.field source label)
  | group {inner : Expr} : Plain inner → Plain (.group inner)
  | entry {source index : Expr} : Plain source → Plain index → Plain (.entry source index)
  | row {source index : Expr} : Plain source → Plain index → Plain (.row source index)
  | slice {source step : Expr} (lo hi : ConstExpr) : Plain source → Plain step → Plain (.slice source lo step hi)
  | window {source rowStep colStep : Expr} (rowLo rowHi colLo colHi : ConstExpr) : Plain source → Plain rowStep →
      Plain colStep → Plain (.window source rowLo rowStep rowHi colLo colStep colHi)
  | query {source : Expr} (size : SizeQuery) : Plain source → Plain (.query source size)
  | binary {left right : Expr} (op : BinaryOp) : Plain left → Plain right → Plain (.binary op left right)
  | negate {operand : Expr} : Plain operand → Plain (.negate operand)
  | not {operand : Expr} : Plain operand → Plain (.not operand)
  | select {condition yes no : Expr} : Plain condition → Plain yes → Plain no → Plain (.select condition yes no)

/-! ## Drawn expressions -/

/-- The factors of a product of vectors and matrices are no records. -/
theorem plain_of_productOperands {ty l r : Ty} {shared : Nat} {vectorOnLeft : Bool}
    (h : ty.productOperands shared vectorOnLeft = .ok (some (l, r))) : l.Plain ∧ r.Plain := by
  have hvector {kind : Kind} {n : Nat} {ty : Ty} (h : Ty.vectorOf kind n = .ok ty) : ty.Plain :=
    (Ty.vectorOf_eq_ok_iff.mp h).2 ▸ trivial
  have hmatrix {kind : Kind} {m n : Nat} {ty : Ty} (h : Ty.matrixOf kind m n = .ok ty) : ty.Plain :=
    (Ty.matrixOf_eq_ok_iff.mp h).2 ▸ trivial
  -- Both factors are made by `vectorOf` and `matrixOf`, whatever the product is.
  have hpair {first second : Except Fault Ty} (hfirst : ∀ ty, first = .ok ty → ty.Plain)
      (hsecond : ∀ ty, second = .ok ty → ty.Plain)
      (h : (do let left ← first; return some (left, ← second)) = Except.ok (some (l, r))) : l.Plain ∧ r.Plain := by
    obtain ⟨left, hleft, h⟩ := exists_of_bind_ok h
    obtain ⟨right, hright, h⟩ := exists_of_bind_ok h
    cases h
    exact ⟨hfirst _ hleft, hsecond _ hright⟩
  unfold Ty.productOperands at h
  split at h
  · split at h
    · cases h
    · split at h
      · exact hpair (fun _ => hvector) (fun _ => hmatrix) h
      · exact hpair (fun _ => hmatrix) (fun _ => hvector) h
  · split at h
    · cases h
    · exact hpair (fun _ => hmatrix) (fun _ => hmatrix) h
  · obtain ⟨operand, hoperand, h⟩ := exists_of_bind_ok h
    cases h
    exact ⟨hvector hoperand, hvector hoperand⟩
  · obtain ⟨operand, hoperand, h⟩ := exists_of_bind_ok h
    cases h
    exact ⟨hvector hoperand, hvector hoperand⟩
  · cases h

theorem plain_of_fits {size : SizeQuery} {ty : Ty} (h : size.Fits ty) : ty.Plain := by
  cases ty with
  | record => cases size <;> cases h
  | _ => trivial

variable {p : Profile} {scope : Scope} {records : Registry} {d : Nat} {ty : Ty} {x : Expr}

theorem Operands.plain {op : BinaryOp} {l r : Ty} (h : Operands p op l r ty) (hty : ty.Plain) : l.Plain ∧ r.Plain := by
  cases h with
  | connective => exact ⟨trivial, trivial⟩
  | comparison kind => exact ⟨Ty.plain_ofKind kind, Ty.plain_ofKind kind⟩
  | same => exact ⟨hty, hty⟩
  | elementLeft => exact ⟨hty.elementTy, hty⟩
  | elementRight => exact ⟨hty, hty.elementTy⟩
  | dot => exact ⟨trivial, trivial⟩
  | matmul _ _ hoperands => exact plain_of_productOperands hoperands

theorem SliceSource.plain {source : Ty} {lo hi : ConstExpr} (h : SliceSource p .words source ty lo hi) : source.Plain := by
  cases h <;> trivial

theorem WindowSource.plain {source : Ty} {rowLo rowHi colLo colHi : ConstExpr}
    (h : WindowSource p .words source ty rowLo rowHi colLo colHi) : source.Plain := by
  cases h <;> trivial

/-- What is drawn where all names are plain is plain. -/
theorem Drawn.plain (hscope : ∀ b ∈ scope.visible, b.Plain) (hrecords : ∀ shape ∈ records.shapes, shape.Plain)
    (h : x.Drawn p scope records d ty) (hty : ty.Plain) : x.Plain := by
  have hbinding {ty : Ty} {b : Binding} (hb : b ∈ scope.ofTy records ty) : b.Plain :=
    hscope b (List.mem_filter.mp hb).1
  induction h with
  | nothing => exact .nothing
  | bool d b => exact .bool b
  | int d n => exact .int n
  | float d parts => exact .float parts
  | string d hcontent => exact .string hcontent
  | @vector _ kind _ _ ih => exact .list fun x hx => ih x hx (Ty.plain_ofKind kind)
  | @matrix _ _ kind rows _ _ ih =>
    refine .list fun x hx => ?_
    obtain ⟨row, hrow, rfl⟩ := List.mem_map.mp hx
    exact .list fun x hx => ih row hrow x hx (Ty.plain_ofKind kind)
  | @record _ id values hlength _ ih =>
    have hvalues : ∀ x ∈ values, x.Plain := Check.forall_of_zip hlength fun part hpart =>
      ih part hpart (Registry.plain_of_fields? hrecords _ (List.of_mem_zip hpart).2).2
    exact .record hty hvalues
  | name hb => exact .name (hbinding hb).name
  | @call _ _ _ args hb _ hlength _ ih =>
    have hplain := hbinding hb
    have hargs : ∀ x ∈ args, x.Plain := Check.forall_of_zip hlength fun part hpart =>
      ih part hpart (hplain.params _ (List.of_mem_zip hpart).2)
    exact .call hplain.name hargs
  | field hb hfound _ ih => exact .field (ih (hbinding hb).ty) (Registry.plain_of_fieldOfTy? hrecords hfound).1
  | group _ ih => exact .group (ih hty)
  | entry _ _ _ _ ih ih' => exact .entry (ih trivial) (ih' trivial)
  | row _ _ _ _ ih ih' => exact .row (ih trivial) (ih' trivial)
  | slice hsource _ _ ih ih' => exact .slice _ _ (ih hsource.plain) (ih' trivial)
  | window hsource _ _ _ ih ih' ih'' => exact .window _ _ _ _ (ih hsource.plain) (ih' trivial) (ih'' trivial)
  | query hfits _ _ ih => exact .query _ (ih (plain_of_fits hfits))
  | binary hop _ _ ih ih' => exact .binary _ (ih (hop.plain hty).1) (ih' (hop.plain hty).2)
  | negate _ _ ih => exact .negate (ih hty)
  | not _ ih => exact .not (ih trivial)
  | select _ _ _ ih ih' ih'' => exact .select (ih trivial) (ih' hty) (ih'' hty)

end Expr

end TensorFuzz
