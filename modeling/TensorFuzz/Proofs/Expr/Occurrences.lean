import TensorFuzz.Proofs.Expr.Checking
import TensorFuzz.Proofs.Expr.Drawn
import TensorFuzz.Proofs.Engine.Valid

/-!
# What occurs in drawn expressions

Whatever occurs in a drawn expression is drawn itself. Only what is sliced is drawn for a type with larger dimensions,
by five at most. So every name in a drawn expression is visible, and a list literal in it is no longer than the
dimensions of declared types, but for five entries for each slice that it stands in the source of.
-/

namespace TensorFuzz.Expr

/-! ## Occurrences -/

/-- The expression is the other one, or a part of it at any depth. -/
inductive OccursIn (x : Expr) : Expr → Prop
  | self : OccursIn x x
  | part {y z : Expr} : z ∈ y.parts → OccursIn x z → OccursIn x y

/-- The source of a slice or a window. -/
def sliced : Expr → List Expr
  | slice source .. | window source .. => [source]
  | _ => []

/-- The parts other than the source of a slice or a window. -/
def unsliced : Expr → List Expr
  | slice _ _ step _ => [step]
  | window _ _ rowStep _ _ colStep _ => [rowStep, colStep]
  | x => x.parts

theorem parts_eq (x : Expr) : x.parts = x.sliced ++ x.unsliced := by cases x <;> rfl

/-- The expression occurs in the other one, in the sources of so many slices and windows. -/
inductive OccursUnder (x : Expr) : Nat → Expr → Prop
  | self : OccursUnder x 0 x
  | source {k : Nat} {y z : Expr} : z ∈ y.sliced → OccursUnder x k z → OccursUnder x (k + 1) y
  | part {k : Nat} {y z : Expr} : z ∈ y.unsliced → OccursUnder x k z → OccursUnder x k y

theorem OccursIn.exists_slices {x y : Expr} (h : x.OccursIn y) : ∃ k, x.OccursUnder k y := by
  induction h with
  | self => exact ⟨0, .self⟩
  | @part y _ hz _ ih =>
    obtain ⟨k, hx⟩ := ih
    rw [parts_eq] at hz
    rcases List.mem_append.mp hz with hz | hz
    · exact ⟨k + 1, .source hz hx⟩
    · exact ⟨k, .part hz hx⟩

/-- The identifier occurs in the expression, as the name of a value or of a called function. -/
def RefersTo (x : Expr) (id : String) : Prop := (Expr.name id).OccursIn x ∨ ∃ args, (Expr.call id args).OccursIn x

/-! ## Types of parts -/

section
variable {p : Profile} {records : Registry} {bound : Nat} {op : BinaryOp} {l r ty source : Ty}

theorem Operands.sized (h : Operands p op l r ty) (hbound : p.dimensionBound ≤ bound) (hty : ty.Sized records bound) :
    l.Sized records bound ∧ r.Sized records bound := by
  have hkind (kind : Kind) : (Ty.ofKind kind).Sized records bound := by cases kind <;> trivial
  cases h with
  | connective => exact ⟨trivial, trivial⟩
  | comparison kind => exact ⟨hkind kind, hkind kind⟩
  | same => exact ⟨hty, hty⟩
  | elementLeft => exact ⟨hty.elementTy, hty⟩
  | elementRight => exact ⟨hty, hty.elementTy⟩
  | dot hpos hle => exact ⟨⟨hpos, Nat.le_trans hle hbound⟩, hpos, Nat.le_trans hle hbound⟩
  | matmul hpos hle hoperands =>
    obtain ⟨operands, heq, hsized⟩ := Ty.productOperands_ok hty ⟨hpos, Nat.le_trans hle hbound⟩ _
    obtain rfl := Except.ok.inj (heq.symm.trans hoperands)
    exact ⟨(hsized _ _ rfl).1, (hsized _ _ rfl).2.1⟩

theorem SliceSource.sized {lo hi : ConstExpr} (h : SliceSource p .words source ty lo hi) (hbound : p.dimensionBound ≤ bound)
    (hty : ty.Sized records bound) : source.Sized records (bound + 5) := by
  cases h with
  | number hpos hle => exact ⟨hpos, by omega⟩
  | vector hpos hlonger =>
    obtain ⟨extra, hextra, rfl⟩ := hlonger
    have hlength := hty.2
    exact ⟨hpos, by omega⟩

theorem WindowSource.sized {rowLo rowHi colLo colHi : ConstExpr}
    (h : WindowSource p .words source ty rowLo rowHi colLo colHi) (hbound : p.dimensionBound ≤ bound)
    (hty : ty.Sized records bound) : source.Sized records (bound + 5) := by
  cases h with
  | number hm hle hn hle' => exact ⟨⟨hm, by omega⟩, hn, by omega⟩
  | row hm hle hn hlonger =>
    obtain ⟨extra, hextra, rfl⟩ := hlonger
    have hlength := hty.2
    exact ⟨⟨hm, by omega⟩, hn, by omega⟩
  | window hm hhigher hn hwider =>
    obtain ⟨higher, hle, rfl⟩ := hhigher
    obtain ⟨wider, hle', rfl⟩ := hwider
    have hrows := hty.1.2
    have hcols := hty.2.2
    exact ⟨⟨hm, by omega⟩, hn, by omega⟩

end

/-- Where the dimensions of a type are bounded, so are those of the type of a part, by five more for each slice that the
part stands in the source of. -/
def Widens (p : Profile) (records : Registry) (slices : Nat) (part ty : Ty) : Prop :=
  ∀ bound, p.dimensionBound ≤ bound → ty.Sized records bound → part.Sized records (bound + 5 * slices)

section
variable {p : Profile} {records : Registry} {slices slices' : Nat} {part part' ty : Ty}

theorem Widens.trans (h : Widens p records slices' part' part) (h' : Widens p records slices part ty) :
    Widens p records (slices' + slices) part' ty := by
  intro bound hbound hty
  have hpart' := h (bound + 5 * slices) (by omega) (h' bound hbound hty)
  have hsum : bound + 5 * slices + 5 * slices' = bound + 5 * (slices' + slices) := by omega
  rwa [hsum] at hpart'

theorem Widens.refl (ty : Ty) : Widens p records 0 ty ty := fun _ _ => id

/-- The part is drawn for a type that is declared. -/
theorem widens_of_declared (h : part.Sized records p.dimensionBound) : Widens p records 0 part ty :=
  fun _ hbound _ => h.widen hbound

end

/-! ## Drawn parts -/

variable {σ : Type} {p : Profile} {e : Engine σ} {d : Nat} {ty : Ty} {x y : Expr}

/-- A binding of a type, or of a record with a field of it, has a type with values where the type has. -/
theorem widens_of_ofTy (hvalid : e.Valid p) {b : Binding} (hb : b ∈ e.scope.ofTy e.records ty) :
    Widens p e.records 0 b.ty ty := by
  obtain ⟨hvisible, rfl | ⟨id, field, hrecord, -, -⟩⟩ := hvalid.ofTy hb
  · exact .refl _
  · refine widens_of_declared ?_
    rcases (hvalid.visible hvisible).ty with ⟨-, hvoid⟩ | hsized
    · rw [hrecord] at hvoid
      cases hvoid
    · exact hsized

/-- The expression is drawn for a type that widens the other one, with a level of depth less for each slice. -/
def DrawnInside (p : Profile) (e : Engine σ) (d : Nat) (ty : Ty) (slices : Nat) (x : Expr) : Prop :=
  ∃ d' ty', DrawnIn p e d' ty' x ∧ d' + slices ≤ d ∧ Widens p e.records slices ty' ty

/-- The source of a drawn slice is drawn. -/
theorem Drawn.sliced (h : DrawnIn p e d ty x) : ∀ y ∈ x.sliced, DrawnInside p e d ty 1 y := by
  cases h with
  | slice hsource hx =>
    exact List.forall_mem_singleton.mpr ⟨_, _, hx, Nat.le_refl _, fun _ => hsource.sized⟩
  | window hsource hx =>
    exact List.forall_mem_singleton.mpr ⟨_, _, hx, Nat.le_refl _, fun _ => hsource.sized⟩
  | _ => exact List.forall_mem_nil _

/-- The other parts of a drawn expression are drawn. -/
theorem Drawn.unsliced (hvalid : e.Valid p) (h : DrawnIn p e d ty x) : ∀ y ∈ x.unsliced, DrawnInside p e d ty 0 y := by
  have hkind (kind : Kind) (ty : Ty) : Widens p e.records 0 (.ofKind kind) ty :=
    widens_of_declared (by cases kind <;> trivial)
  have hint {d : Nat} {y : Expr} (ty : Ty) (hy : DrawnIn p e d .int y) : DrawnInside p e (d + 1) ty 0 y :=
    ⟨d, .int, hy, Nat.le_succ d, hkind .int ty⟩
  have hsame {d : Nat} {ty : Ty} {y : Expr} (hy : DrawnIn p e d ty y) : DrawnInside p e (d + 1) ty 0 y :=
    ⟨d, ty, hy, Nat.le_succ d, .refl ty⟩
  cases h with
  | nothing | bool | int | float | string | name => exact List.forall_mem_nil _
  | vector hitems => exact fun y hy => ⟨_, _, hitems y hy, Nat.sub_le _ _, hkind _ _⟩
  | matrix hlength hitems =>
    rintro y hy
    obtain ⟨row, hrow, rfl⟩ := List.mem_map.mp hy
    obtain rfl := hlength row hrow
    exact ⟨d, _, .vector (hitems row hrow), Nat.le_refl d, fun _ _ hty => hty.2⟩
  | @record _ id values hlength hvalues =>
    refine Check.forall_of_zip (P := DrawnInside p e d _ 0) hlength fun part hpart =>
      ⟨_, _, hvalues part hpart, Nat.sub_le _ _, ?_⟩
    have hfield := (List.of_mem_zip hpart).2
    cases hfields : e.records.fields? id with
    | none =>
      rw [hfields] at hfield
      cases hfield
    | some fields =>
      rw [hfields] at hfield
      have hsized := (hvalid.fields hfields).tys _ hfield
      exact widens_of_declared (hsized.mono (List.nil_subset _) (Nat.le_refl _))
  | call hb _ hlength hargs =>
    have hvisible := hvalid.visible (hvalid.ofTy hb).1
    exact Check.forall_of_zip (P := DrawnInside p e _ ty 0) hlength fun part hpart => ⟨_, _, hargs part hpart,
      Nat.le_succ _, widens_of_declared (hvisible.params _ (List.of_mem_zip hpart).2)⟩
  | field hb _ hsource =>
    exact List.forall_mem_singleton.mpr ⟨_, _, hsource, Nat.le_refl _, widens_of_ofTy hvalid hb⟩
  | group hx | negate _ hx | not hx => exact List.forall_mem_singleton.mpr (hsame hx)
  | query _ hsized hx =>
    have hsource := hsized.mono (List.nil_subset e.records.ids) (Nat.le_refl _)
    exact List.forall_mem_singleton.mpr ⟨_, _, hx, Nat.le_succ _, widens_of_declared hsource⟩
  | entry hpos hle hx hindex =>
    refine List.forall_mem_cons.mpr ⟨⟨_, _, hx, Nat.le_succ _, ?_⟩, List.forall_mem_singleton.mpr (hint _ hindex)⟩
    exact widens_of_declared ⟨hpos, hle⟩
  | row hpos hle hx hindex =>
    refine List.forall_mem_cons.mpr ⟨⟨_, _, hx, Nat.le_succ _, ?_⟩, List.forall_mem_singleton.mpr (hint _ hindex)⟩
    exact fun _ hbound hty => ⟨⟨hpos, Nat.le_trans hle hbound⟩, hty⟩
  | slice _ _ hstep => exact List.forall_mem_singleton.mpr (hint _ hstep)
  | window _ _ hrow hcol =>
    exact List.forall_mem_cons.mpr ⟨hint _ hrow, List.forall_mem_singleton.mpr (hint _ hcol)⟩
  | binary hop hl hr =>
    refine List.forall_mem_cons.mpr ⟨⟨_, _, hl, Nat.le_succ _, ?_⟩,
      List.forall_mem_singleton.mpr ⟨_, _, hr, Nat.le_succ _, ?_⟩⟩
    · exact fun _ hbound hty => (hop.sized hbound hty).1
    · exact fun _ hbound hty => (hop.sized hbound hty).2
  | select hc hx hz =>
    refine List.forall_mem_cons.mpr ⟨⟨_, _, hc, Nat.le_succ _, widens_of_declared trivial⟩, ?_⟩
    exact List.forall_mem_cons.mpr ⟨hsame hx, List.forall_mem_singleton.mpr (hsame hz)⟩

/-- Whatever occurs in a drawn expression is drawn. -/
theorem Drawn.of_occursUnder (hvalid : e.Valid p) (h : DrawnIn p e d ty x) {slices : Nat}
    (hy : y.OccursUnder slices x) : DrawnInside p e d ty slices y := by
  induction hy generalizing d ty with
  | self => exact ⟨d, ty, h, Nat.le_refl d, .refl ty⟩
  | source hz _ ih =>
    obtain ⟨d', ty', hz, hd, hwidens⟩ := h.sliced _ hz
    obtain ⟨d'', ty'', hy, hd', hwidens'⟩ := ih hz
    exact ⟨d'', ty'', hy, by omega, hwidens'.trans hwidens⟩
  | part hz _ ih =>
    obtain ⟨d', ty', hz, hd, hwidens⟩ := h.unsliced hvalid _ hz
    obtain ⟨d'', ty'', hy, hd', hwidens'⟩ := ih hz
    exact ⟨d'', ty'', hy, by omega, hwidens'.trans hwidens⟩

theorem Drawn.of_occursIn (hvalid : e.Valid p) (h : DrawnIn p e d ty x) (hy : y.OccursIn x) :
    ∃ d' ty', DrawnIn p e d' ty' y := by
  obtain ⟨k, hy⟩ := hy.exists_slices
  obtain ⟨d', ty', hy, -, -⟩ := h.of_occursUnder hvalid hy
  exact ⟨d', ty', hy⟩

/-- The names in a drawn expression are visible. -/
theorem Drawn.exists_binding (hvalid : e.Valid p) (h : DrawnIn p e d ty x) {id : String} (hid : x.RefersTo id) :
    ∃ b ∈ e.scope.visible, b.name = id := by
  rcases hid with hname | ⟨args, hcall⟩
  · obtain ⟨d', ty', hname⟩ := h.of_occursIn hvalid hname
    cases hname with
    | name hb => exact ⟨_, (hvalid.ofTy hb).1, rfl⟩
  · obtain ⟨d', ty', hcall⟩ := h.of_occursIn hvalid hcall
    cases hcall with
    | call hb => exact ⟨_, (hvalid.ofTy hb).1, rfl⟩

/-- The list literals in the expression have at least one item, and at most `bound` items and five more for each slice
that they stand in the source of; and no more than `depth` slices are nested. -/
def ListsBounded (bound depth : Nat) (x : Expr) : Prop :=
  ∀ ⦃slices items⦄, (list items).OccursUnder slices x →
    slices ≤ depth ∧ 1 ≤ items.length ∧ items.length ≤ bound + 5 * slices

theorem Drawn.listsBounded (hvalid : e.Valid p) (h : DrawnIn p e d ty x) {bound : Nat}
    (hbound : p.dimensionBound ≤ bound) (hty : ty.Sized e.records bound) : x.ListsBounded bound d := by
  intro slices items hitems
  obtain ⟨d', ty', hlist, hd, hwidens⟩ := h.of_occursUnder hvalid hitems
  have hty' := hwidens bound hbound hty
  cases hlist with
  | vector => exact ⟨by omega, hty'.1, hty'.2⟩
  | matrix =>
    rw [List.length_map]
    exact ⟨by omega, hty'.1.1, hty'.1.2⟩

end TensorFuzz.Expr
