import TensorFuzz.Proofs.Expr.Literals
import TensorFuzz.Proofs.Expr.Operations
import TensorFuzz.Proofs.Expr.Drawn

/-!
# Generated expressions

Each level of the generator gives expressions of the type that was asked for, if the levels one step deeper do.
A source that is sliced may be larger than the result by five entries in a dimension, so every step deeper needs
that much more room below the sizes that a signed word holds.
-/

namespace TensorFuzz

open Check (arithmetic dotProduct matrixProduct indexCount sliceTy windowTy labelledTy IsName)

/-! ## Atoms -/

namespace Expr

open Gen

variable {σ : Type} [RandomSource σ] {p : Profile} {e₀ : Engine σ} {bound : Nat} {hasDepth : Bool} {safe : Faults}
  {deeper : Levels σ} {ty : Ty} {P : Expr → Prop}

/-- A level either combines or goes on. -/
theorem combined {chance : Probability} {act next : Gen σ Expr} (hact : Keeps safe e₀ act P)
    (hnext : Keeps safe e₀ next P) :
    Keeps safe e₀ (do if ← combine hasDepth chance then act else next) P :=
  (combine_keeps chance).bind fun _ _ => .ite (fun _ => hact) fun _ => hnext

/-- What a level combines for some types only. -/
theorem combined_if {c : Prop} [Decidable c] {chance : Probability} {act next : Gen σ Expr}
    (hact : c → Keeps safe e₀ act P) (hnext : Keeps safe e₀ next P) :
    Keeps safe e₀ (if c then (do if ← combine hasDepth chance then act else next) else next) P :=
  .ite (fun hc => combined (hact hc) hnext) fun _ => hnext

/-- A use of a visible binding, or of its field with the label, has the type of that value. -/
theorem use_keeps (hvalid : e₀.Valid p) (hdeeper : Sound safe e₀ deeper bound) (hbound : p.dimensionBound ≤ bound)
    {b : Binding} (hb : b ∈ e₀.scope.visible) (label : Option String) (hlabel : ∀ l ∈ label, IsName l)
    (hty : labelledTy e₀.records b.ty label = .ok ty) (chance : Probability) :
    Keeps safe e₀
      (if b.isFunction then do
          if ← combine hasDepth chance then
            return some ((← drawCall deeper b.name b.params).labelled label)
          return none
        else return some ((Expr.name b.name).labelled label))
      fun found => ∀ x ∈ found, Fits e₀ .atom ty x := by
  have hlookup := Scope.lookup?_of_mem_visible hb
  have hvisible := hvalid.visible hb
  refine .ite (fun hfunction => ?_) fun hvalue => .pure ?_
  · refine (combine_keeps chance).bind fun _ _ => .ite (fun _ => ?_) fun _ => .pure (by simp)
    have hargs : ∀ param ∈ b.params, Keeps safe e₀ (deeper .whole param) (Fits e₀ .select param) :=
      fun param hparam => hdeeper.part ((hvisible.params param hparam).widen hbound)
    refine (drawCall_keeps hargs b.name).bind fun x hx => .pure ?_
    obtain ⟨args, rfl, hlength, hargs⟩ := hx
    rintro _ ⟨⟩
    exact .call label hvisible.name hlabel hlookup hfunction hlength hargs hty
  · rintro _ ⟨⟩
    exact .name label hvisible.name hlabel hlookup (by simpa using hvalue) hty

theorem drawUse_keeps (hvalid : e₀.Valid p) (hdeeper : Sound safe e₀ deeper bound) (hbound : p.dimensionBound ≤ bound)
    {b : Binding} (hb : b ∈ e₀.scope.ofTy e₀.records ty) :
    Keeps safe e₀ (drawUse hasDepth deeper b ty) fun found => ∀ x ∈ found, Fits e₀ .atom ty x := by
  obtain ⟨hvisible, hty⟩ := hvalid.ofTy hb
  unfold drawUse
  rcases hty with hsame | ⟨id, field, hrecord, hnone, hfind⟩
  · subst hsame
    cases b.ty.recordId? <;>
      exact use_keeps hvalid hdeeper hbound hvisible none (by simp) rfl (.ratio 4 10)
  · rw [hrecord, hnone]
    refine Keeps.look fun e he => ?_
    rw [he.records, hfind]
    obtain ⟨hnamed, hfieldTy, hname⟩ := hvalid.fieldNamed? hfind
    have hlabelled : labelledTy e₀.records b.ty (some field.name) = .ok ty := by
      simp only [hrecord, labelledTy, Check.fieldTy, Ty.recordId?, hnamed, hfieldTy]
    exact use_keeps hvalid hdeeper hbound hvisible (some field.name) (by simpa using hname) hlabelled .certain

theorem drawReference_keeps (hvalid : e₀.Valid p) (hdeeper : Sound safe e₀ deeper bound)
    (hbound : p.dimensionBound ≤ bound) :
    Keeps safe e₀ (drawReference hasDepth deeper ty) fun found => ∀ x ∈ found, Fits e₀ .atom ty x := by
  refine Keeps.look fun e he => (Keeps.pick? _).bind fun found hfound => ?_
  cases found with
  | none => exact .pure (by simp)
  | some b =>
    have hb := hfound.2 b rfl
    rw [he.scope, he.records] at hb
    exact drawUse_keeps hvalid hdeeper hbound hb

/-- A literal whose parts are generated one step deeper. -/
theorem literal_keeps (hvalid : e₀.Valid p) (hdeeper : Sound safe e₀ deeper bound)
    (hbound : p.dimensionBound ≤ bound) (hty : ty.Sized e₀.records bound) :
    Keeps safe e₀ (drawLiteral (deeper .whole) ty) (Fits e₀ .atom ty) := by
  refine drawLiteral_within (.agrees e₀) hty (fun _ => hdeeper.part trivial)
    (fun id fields _ hfields field hfield => ?_) fun _ _ => hvalid.fields
  exact hdeeper.part (((hvalid.fields hfields).tys field hfield).mono (List.nil_subset _) hbound)

theorem drawAtom_keeps (hvalid : e₀.Valid p) (hdeeper : Sound safe e₀ deeper bound)
    (hbound : p.dimensionBound ≤ bound) (hty : ty.Sized e₀.records bound) :
    Keeps safe e₀ (drawAtom hasDepth deeper ty) (Fits e₀ .atom ty) := by
  have hliteral := literal_keeps hvalid hdeeper hbound hty
  unfold drawAtom
  refine combined ((hdeeper.part hty).bind fun x hx => .pure (.group hx)) ?_
  refine Keeps.coin.bind fun _ _ => .ite (fun _ => ?_) fun _ => hliteral
  refine (drawReference_keeps hvalid hdeeper hbound).bind fun found hfound => ?_
  cases found with
  | none => exact hliteral
  | some x => exact .pure (hfound x rfl)

/-! ## Vectors and matrices -/

/-- What a level rests on: a valid state, and levels one step deeper that are sound up to sources of five more
entries in a dimension, which a signed word still holds. -/
structure Supported (safe : Faults) (p : Profile) (e₀ : Engine σ) (bound : Nat) (deeper : Levels σ) : Prop where
  valid : e₀.Valid p
  declared : p.dimensionBound ≤ bound
  room : bound + 5 < 0x8000000000000000
  deeper : Sound safe e₀ deeper (bound + 5)

namespace Supported

theorem dimension (h : Supported safe p e₀ bound deeper) :
    Keeps safe e₀ (Gen.dimension p : Gen σ Nat) fun n => 1 ≤ n ∧ n ≤ bound :=
  (Keeps.dimension p).mono fun _ hn => ⟨hn.1, Nat.le_trans hn.2 h.declared⟩

theorem operand (h : Supported safe p e₀ bound deeper) (level : Level) (ty : Ty) (hty : ty.Sized e₀.records bound) :
    Keeps safe e₀ (deeper level ty) (Fits e₀ level ty) := h.deeper level ty (hty.widen (by omega))

theorem part (h : Supported safe p e₀ bound deeper) (ty : Ty) (hty : ty.Sized e₀.records bound) :
    Keeps safe e₀ (deeper .whole ty) (Fits e₀ .select ty) := h.deeper.part (hty.widen (by omega))

theorem literal (h : Supported safe p e₀ bound deeper) (hty : ty.Sized e₀.records bound) :
    Keeps safe e₀ (drawLiteral (deeper .whole) ty) (Fits e₀ .atom ty) :=
  literal_keeps h.valid (h.deeper.anti (by omega)) h.declared hty

theorem atom (h : Supported safe p e₀ bound deeper) (hty : ty.Sized e₀.records bound) :
    Keeps safe e₀ (drawAtom hasDepth deeper ty) (Fits e₀ .atom ty) :=
  drawAtom_keeps h.valid (h.deeper.anti (by omega)) h.declared hty

theorem element (h : Supported safe p e₀ bound deeper) (hty : ty.Sized e₀.records bound) :
    Keeps safe e₀ (drawElement p hasDepth deeper ty) (Fits e₀ .element ty) := by
  have hatom : Keeps safe e₀ (drawAtom hasDepth deeper ty) (Fits e₀ .element ty) :=
    (h.atom hty).mono fun _ hx => hx.loosen (by decide)
  have hindex : Keeps safe e₀ (deeper .whole .int) (Fits e₀ .select .int) := h.part .int trivial
  have hentry (kind : Kind) : Keeps safe e₀
      (do
        let source ← Gen.orFault ((Ty.ofKind kind).asVector (← Gen.dimension p))
        let source ← deeper .atom source
        return .entry source (← deeper .whole .int))
      (Fits e₀ .element (.ofKind kind)) := by
    refine h.dimension.bind fun n hn => .orFault (Ty.asVector_ofKind hn.1) ?_
    exact (h.operand .atom (.vector kind n) hn).bind fun x hx => hindex.bind fun i hi => .pure (.entry hx hi)
  unfold drawElement
  cases ty with
  | int => exact combined (hentry .int) hatom
  | float => exact combined (hentry .float) hatom
  | vector kind length =>
    refine combined_if (fun _ => ?_) hatom
    refine h.dimension.bind fun n hn => .orFault (Ty.matrixOf_ok hn.1 hty.1) ?_
    have hsource := h.operand .atom (.matrix kind n length) ⟨hn, hty⟩
    exact hsource.bind fun x hx => hindex.bind fun i hi => .pure (.row hx hi)
  | _ => exact hatom

theorem sliceOf (h : Supported safe p e₀ bound deeper) {source : Expr} {kind : Kind} {size count : Nat} {lo hi : Int}
    (hsource : Fits e₀ .element (.vector kind size) source) (hlo : Fits64 lo) (hhi : Fits64 hi)
    (hcount : indexCount lo hi = .ok count) :
    Keeps safe e₀ (drawSliceOf p deeper source lo hi) (Fits e₀ .slice (sliceTy kind count)) := by
  refine (constant_keeps hlo).bind fun first hfirst => (h.part .int trivial).bind fun step hstep => ?_
  exact (constant_keeps hhi).bind fun last hlast => .pure (.slice hsource hfirst hstep hlast hcount)

theorem windowOf (h : Supported safe p e₀ bound deeper) {source : Expr} {kind : Kind} {rows cols height width : Nat}
    {a b c d : Int} (hsource : Fits e₀ .element (.matrix kind rows cols) source) (ha : Fits64 a) (hb : Fits64 b)
    (hc : Fits64 c) (hd : Fits64 d) (hheight : indexCount a b = .ok height) (hwidth : indexCount c d = .ok width) :
    Keeps safe e₀ (drawWindowOf p deeper source a b c d) (Fits e₀ .slice (windowTy kind height width)) := by
  have hstep : Keeps safe e₀ (deeper .whole .int) (Fits e₀ .select .int) := h.part .int trivial
  refine (constant_keeps ha).bind fun x hx => hstep.bind fun s hs => (constant_keeps hb).bind fun y hy => ?_
  refine (constant_keeps hc).bind fun z hz => hstep.bind fun t ht => (constant_keeps hd).bind fun w hw => .pure ?_
  exact .window hsource hx hs hy hheight hz ht hw hwidth

theorem numberSlice (h : Supported safe p e₀ bound deeper) (kind : Kind) :
    Keeps safe e₀ (drawNumberSlice p deeper (.ofKind kind)) (Fits e₀ .slice (.ofKind kind)) := by
  refine (Keeps.chance _).bind fun _ _ => .ite (fun _ => ?_) fun _ => ?_
  · refine h.dimension.bind fun n hn => (Keeps.draw (Draw.centeredOffset_yields n)).bind fun v hv => ?_
    refine .orFault (Ty.asVector_ofKind hn.1) ?_
    exact (h.operand .element (.vector kind n) hn).bind fun x hx => h.sliceOf hx hv hv (indexCount_self v)
  · refine h.dimension.bind fun m hm => h.dimension.bind fun n hn => ?_
    refine (Keeps.draw (Draw.centeredOffset_yields m)).bind fun v hv => ?_
    refine (Keeps.draw (Draw.centeredOffset_yields n)).bind fun w hw => ?_
    refine .orFault (Ty.asMatrix_ofKind hm.1 hn.1) ?_
    exact (h.operand .element (.matrix kind m n) ⟨hm, hn⟩).bind fun x hx =>
      h.windowOf hx hv hv hw hw (indexCount_self v) (indexCount_self w)

/-- The bounds of a slice that starts near zero lie as far apart as the length asks. -/
theorem bounds {start : Int} {length : Nat} (hstart : NearZero start) (hlength : 1 ≤ length)
    (hroom : length + 5 < 0x8000000000000000) : Fits64 start ∧ Fits64 (start + length - 1) ∧
      indexCount start (start + length - 1) = .ok length := by
  have hlast := (lastIndex_eq_ok_iff.mp (lastIndex_eq hstart hroom)).2.1
  exact ⟨hstart.fits, hlast, indexCount_eq hlength (by unfold limit64; omega) (by omega)⟩

theorem sourceSize (h : Supported safe p e₀ bound deeper) {length : Nat} (hlength : length ≤ bound) :
    Keeps safe e₀ (Expr.sourceSize length : Gen σ Nat) fun n => length ≤ n ∧ n ≤ bound + 5 := by
  have hroom := h.room
  refine (sourceSize_keeps fun _ => by unfold limit64; omega).mono fun n hn => ?_
  obtain ⟨extra, hextra, rfl⟩ := hn
  omega

theorem vectorSlice (h : Supported safe p e₀ bound deeper) {kind : Kind} {length : Nat} (hlength : 1 < length)
    (hle : length ≤ bound) :
    Keeps safe e₀ (drawVectorSlice p deeper kind length) (Fits e₀ .slice (.vector kind length)) := by
  have hroom := h.room
  have hsize := h.sourceSize hle
  refine offset_keeps.bind fun start hstart => .orFault (lastIndex_eq hstart (by omega)) ?_
  obtain ⟨hlo, hhi, hcount⟩ := bounds hstart (Nat.le_of_lt hlength) (by omega)
  refine (Keeps.chance _).bind fun _ _ => .ite (fun _ => ?_) fun _ => ?_
  · refine hsize.bind fun n hn => .orFault (Ty.vectorOf_ok (by omega)) ?_
    refine (h.deeper .element (.vector kind n) ⟨by omega, by omega⟩).bind fun x hx => ?_
    rw [← sliceTy_of_lt hlength]
    exact h.sliceOf hx hlo hhi hcount
  · refine offset_keeps.bind fun row hrow => h.dimension.bind fun m hm => hsize.bind fun n hn => ?_
    have hrowFits := hrow.fits
    refine .orFault (Ty.matrixOf_ok hm.1 (by omega)) ?_
    refine (h.deeper .element (.matrix kind m n) ⟨⟨hm.1, by omega⟩, by omega, by omega⟩).bind fun x hx => ?_
    rw [← sliceTy_of_lt hlength]
    exact h.windowOf hx hrowFits hrowFits hlo hhi (indexCount_self row) hcount

theorem matrixSlice (h : Supported safe p e₀ bound deeper) {kind : Kind} {rows cols : Nat} (hrows : 1 < rows)
    (hty : (Ty.matrix kind rows cols).Sized e₀.records bound) :
    Keeps safe e₀ (drawMatrixSlice p deeper kind rows cols) (Fits e₀ .slice (.matrix kind rows cols)) := by
  have hroom := h.room
  obtain ⟨⟨-, hrowsLe⟩, hcols, hcolsLe⟩ := hty
  refine offset_keeps.bind fun row hrow => .orFault (lastIndex_eq hrow (by omega)) ?_
  refine offset_keeps.bind fun col hcol => .orFault (lastIndex_eq hcol (by omega)) ?_
  refine (h.sourceSize hrowsLe).bind fun m hm => (h.sourceSize hcolsLe).bind fun n hn => ?_
  refine .orFault (Ty.matrixOf_ok (by omega) (by omega)) ?_
  refine (h.deeper .element (.matrix kind m n) ⟨⟨by omega, by omega⟩, by omega, by omega⟩).bind fun x hx => ?_
  obtain ⟨ha, hb, hheight⟩ := bounds hrow (Nat.le_of_lt hrows) (by omega)
  obtain ⟨hc, hd, hwidth⟩ := bounds hcol hcols (by omega)
  rw [← windowTy_of_lt hrows]
  exact h.windowOf hx ha hb hc hd hheight hwidth

theorem slice (h : Supported safe p e₀ bound deeper) (hty : ty.Sized e₀.records bound) :
    Keeps safe e₀ (drawSlice p hasDepth deeper ty) (Fits e₀ .slice ty) := by
  have helement : Keeps safe e₀ (drawElement p hasDepth deeper ty) (Fits e₀ .slice ty) :=
    (h.element hty).mono fun _ hx => hx.loosen (by decide)
  unfold drawSlice
  cases ty with
  | int => exact combined (h.numberSlice .int) helement
  | float => exact combined (h.numberSlice .float) helement
  | vector kind length => exact combined_if (fun hlength => h.vectorSlice hlength hty.2) helement
  | matrix kind rows cols => exact combined_if (fun hrows => h.matrixSlice hrows hty) helement
  | _ => exact helement

/-- Operands that an operator combines, each at its level. -/
theorem binary (h : Supported safe p e₀ bound deeper) (op : BinaryOp) {l r : Ty} (hl : l.Sized e₀.records bound)
    (hr : r.Sized e₀.records bound) (hjoins : op.Joins l r ty) :
    Keeps safe e₀ (do
        let left ← deeper op.leftLevel l
        return .binary op left (← deeper op.rightLevel r))
      (Fits e₀ op.level ty) :=
  (h.operand _ l hl).bind fun _ hx => (h.operand _ r hr).bind fun _ hy => .pure (.binary hx hy hjoins)

theorem matmul (h : Supported safe p e₀ bound deeper) (hty : ty.Sized e₀.records bound) :
    Keeps safe e₀ (drawMatmul p hasDepth deeper ty) (Fits e₀ .matmul ty) := by
  have hslice : Keeps safe e₀ (drawSlice p hasDepth deeper ty) (Fits e₀ .matmul ty) :=
    (h.slice hty).mono fun _ hx => hx.loosen (by decide)
  refine h.dimension.bind fun shared hshared => Keeps.coin.bind fun vectorOnLeft _ => ?_
  obtain ⟨operands, hoperands, hfit⟩ := Ty.productOperands_ok hty hshared vectorOnLeft
  refine .orFault hoperands ?_
  match operands with
  | none => exact hslice
  | some (left, right) =>
    obtain ⟨hleft, hright, hproduct⟩ := hfit left right rfl
    exact combined (h.binary .matmul hleft hright hproduct) hslice

theorem dot (h : Supported safe p e₀ bound deeper) (hty : ty.Sized e₀.records bound) :
    Keeps safe e₀ (drawDot p hasDepth deeper ty) (Fits e₀ .dot ty) := by
  have hmatmul : Keeps safe e₀ (drawMatmul p hasDepth deeper ty) (Fits e₀ .dot ty) :=
    (h.matmul hty).mono fun _ hx => hx.loosen (by decide)
  refine combined_if (fun hnumber => ?_) hmatmul
  obtain ⟨kind, rfl⟩ := Ty.exists_kind hnumber
  refine h.dimension.bind fun n hn => .orFault (Ty.asVector_ofKind hn.1) ?_
  have hjoins : BinaryOp.dot.Joins (.vector kind n) (.vector kind n) (.ofKind kind) := if_pos ⟨rfl, rfl⟩
  exact h.binary .dot hn hn hjoins

theorem query (h : Supported safe p e₀ bound deeper) (hty : ty.Sized e₀.records bound) :
    Keeps safe e₀ (drawQuery p hasDepth deeper ty) (Fits e₀ .query ty) := by
  have hdot : Keeps safe e₀ (drawDot p hasDepth deeper ty) (Fits e₀ .query ty) :=
    (h.dot hty).mono fun _ hx => hx.loosen (by decide)
  refine combined_if (fun hint => ?_) hdot
  obtain rfl : ty = .int := by cases ty <;> first | rfl | cases hint
  refine Keeps.kind.bind fun kind _ => h.dimension.bind fun m hm => h.dimension.bind fun n hn => ?_
  refine Keeps.coin.bind fun _ _ => .ite (fun _ => .orFault (Ty.vectorOf_ok hm.1) ?_) fun _ => ?_
  · exact (h.operand .dot (.vector kind m) hm).bind fun x hx => .pure (.query hx rfl)
  · refine Keeps.coin.bind fun byRows _ => .orFault (Ty.matrixOf_ok hm.1 hn.1) ?_
    refine (h.operand .dot (.matrix kind m n) ⟨hm, hn⟩).bind fun x hx => .pure (.query hx ?_)
    cases byRows <;> rfl

/-! ## Arithmetic -/

theorem power (h : Supported safe p e₀ bound deeper) (hty : ty.Sized e₀.records bound) :
    Keeps safe e₀ (drawPower p hasDepth deeper ty) (Fits e₀ .power ty) := by
  have hquery : Keeps safe e₀ (drawQuery p hasDepth deeper ty) (Fits e₀ .power ty) :=
    (h.query hty).mono fun _ hx => hx.loosen (by decide)
  refine combined_if (fun harithmetic => ?_) (combined_if (fun htensor => ?_) hquery)
  · exact h.binary .power hty hty (arithmetic_same harithmetic nofun)
  · exact h.binary .power hty hty.elementTy (arithmetic_element_right htensor (by decide))

theorem negate (h : Supported safe p e₀ bound deeper) (hty : ty.Sized e₀.records bound) :
    Keeps safe e₀ (drawNegate p hasDepth deeper ty) (Fits e₀ .negate ty) := by
  have hpower : Keeps safe e₀ (drawPower p hasDepth deeper ty) (Fits e₀ .negate ty) :=
    (h.power hty).mono fun _ hx => hx.loosen (by decide)
  refine combined_if (fun hnumber => ?_) hpower
  exact (h.operand .power ty hty).bind fun x hx => .pure (.negate (hx.loosen (by decide)) hnumber)

theorem product (h : Supported safe p e₀ bound deeper) (hty : ty.Sized e₀.records bound) :
    Keeps safe e₀ (drawProduct hasDepth deeper ty) (Fits e₀ .product ty) := by
  have hatom : Keeps safe e₀ (drawAtom hasDepth deeper ty) (Fits e₀ .product ty) :=
    (h.atom hty).mono fun _ hx => hx.loosen (by decide)
  have hmultiply {l r : Ty} (hl : l.Sized e₀.records bound) (hr : r.Sized e₀.records bound)
      (hjoins : arithmetic .star l r = .ok ty) := h.binary .multiply hl hr hjoins
  refine combined_if (fun harithmetic => ?_) (combined_if (fun htensor => Keeps.coin.bind fun _ _ => ?_) hatom)
  · have hop : Keeps safe e₀ (do return if ← coin then BinaryOp.divide else .multiply : Gen σ BinaryOp)
        fun op => op = .divide ∨ op = .multiply :=
      Keeps.coin.bind fun divides _ => .pure (by cases divides <;> decide)
    refine .ite (fun hnumber => hop.bind fun op hop => ?_) fun _ => ?_
    · rcases hop with rfl | rfl
      · exact h.binary .divide hty hty (arithmetic_same harithmetic fun _ => hnumber)
      · exact hmultiply hty hty (arithmetic_same harithmetic nofun)
    · exact hmultiply hty hty (arithmetic_same harithmetic nofun)
  · refine .ite (fun _ => ?_) fun _ => ?_
    · exact hmultiply hty.elementTy hty (arithmetic_element_left htensor (by decide))
    · exact hmultiply hty hty.elementTy (arithmetic_element_right htensor (by decide))

theorem sum (h : Supported safe p e₀ bound deeper) (hty : ty.Sized e₀.records bound) :
    Keeps safe e₀ (drawSum hasDepth deeper ty) (Fits e₀ .sum ty) := by
  have hatom : Keeps safe e₀ (drawAtom hasDepth deeper ty) (Fits e₀ .sum ty) :=
    (h.atom hty).mono fun _ hx => hx.loosen (by decide)
  refine combined_if (fun harithmetic => Keeps.coin.bind fun isSum _ => ?_)
    (combined_if (fun htensor => Keeps.coin.bind fun _ _ => ?_) hatom)
  · cases isSum with
    | true => exact h.binary .add hty hty (arithmetic_same harithmetic nofun)
    | false => exact h.binary .subtract hty hty (arithmetic_same harithmetic nofun)
  · refine .ite (fun _ => ?_) fun _ => ?_
    · exact h.binary .add hty.elementTy hty (arithmetic_element_left htensor (by decide))
    · exact h.binary .add hty hty.elementTy (arithmetic_element_right htensor (by decide))

/-! ## Truth values -/

theorem compare (h : Supported safe p e₀ bound deeper) (hty : ty.Sized e₀.records bound) :
    Keeps safe e₀ (drawCompare hasDepth deeper ty) (Fits e₀ .compare ty) := by
  have hsum : Keeps safe e₀ (drawSum hasDepth deeper ty) (Fits e₀ .compare ty) :=
    (h.sum hty).mono fun _ hx => hx.loosen (by decide)
  refine combined_if (fun hbool => Keeps.kind.bind fun kind _ => ?_) hsum
  obtain rfl := Ty.eq_bool hbool
  refine (Keeps.pick? _).bind fun found hfound => ?_
  have hnumber : (Ty.ofKind kind).Sized e₀.records bound ∧ (Ty.ofKind kind).isNumber = true := by
    cases kind <;> exact ⟨trivial, rfl⟩
  have hop : found.getD .equal ∈ comparisons := by
    cases found with
    | none => decide
    | some op => exact hfound.2 op rfl
  generalize found.getD .equal = op at hop
  obtain ⟨hleft, hright, hlevel, hjoins⟩ : op.leftLevel = .sum ∧ op.rightLevel = .sum ∧ op.level = .compare ∧
      op.Joins (.ofKind kind) (.ofKind kind) .bool := by
    revert op
    simp [comparisons, BinaryOp.leftLevel, BinaryOp.rightLevel, BinaryOp.level, BinaryOp.Joins, hnumber.2]
  have hbinary := h.binary op hnumber.1 hnumber.1 hjoins
  rwa [hleft, hright, hlevel] at hbinary

theorem not (h : Supported safe p e₀ bound deeper) (hty : ty.Sized e₀.records bound) :
    Keeps safe e₀ (drawNot hasDepth deeper ty) (Fits e₀ .not ty) := by
  have hcompare : Keeps safe e₀ (drawCompare hasDepth deeper ty) (Fits e₀ .not ty) :=
    (h.compare hty).mono fun _ hx => hx.loosen (by decide)
  refine combined_if (fun hbool => ?_) hcompare
  obtain rfl := Ty.eq_bool hbool
  exact (h.operand .compare .bool trivial).bind fun x hx => .pure (.not hx)

theorem and (h : Supported safe p e₀ bound deeper) (hty : ty.Sized e₀.records bound) :
    Keeps safe e₀ (drawAnd hasDepth deeper ty) (Fits e₀ .and ty) := by
  have hnot : Keeps safe e₀ (drawNot hasDepth deeper ty) (Fits e₀ .and ty) :=
    (h.not hty).mono fun _ hx => hx.loosen (by decide)
  refine combined_if (fun hbool => ?_) hnot
  obtain rfl := Ty.eq_bool hbool
  exact h.binary .and trivial trivial ⟨rfl, rfl, rfl⟩

theorem or (h : Supported safe p e₀ bound deeper) (hty : ty.Sized e₀.records bound) :
    Keeps safe e₀ (drawOr hasDepth deeper ty) (Fits e₀ .or ty) := by
  have hand : Keeps safe e₀ (drawAnd hasDepth deeper ty) (Fits e₀ .or ty) :=
    (h.and hty).mono fun _ hx => hx.loosen (by decide)
  refine combined_if (fun hbool => ?_) hand
  obtain rfl := Ty.eq_bool hbool
  exact h.binary .or trivial trivial ⟨rfl, rfl, rfl⟩

theorem select (h : Supported safe p e₀ bound deeper) (hty : ty.Sized e₀.records bound) :
    Keeps safe e₀ (drawSelect hasDepth deeper ty) (Fits e₀ .select ty) := by
  have hor : Keeps safe e₀ (drawOr hasDepth deeper ty) (Fits e₀ .select ty) :=
    (h.or hty).mono fun _ hx => hx.loosen (by decide)
  refine combined ((h.operand .or .bool trivial).bind fun c hc => ?_) hor
  have hbranch : Keeps safe e₀ (deeper .or ty) (Fits e₀ .or ty) := h.operand .or ty hty
  exact hbranch.bind fun x hx => hbranch.bind fun y hy => .pure (.select hc hx hy)

theorem whole (h : Supported safe p e₀ bound deeper) (hty : ty.Sized e₀.records bound) :
    Keeps safe e₀ (drawWhole hasDepth deeper ty) (Fits e₀ .whole ty) := by
  refine Keeps.look fun e _ => .ite (fun _ => ?_) fun _ => ?_
  · exact (h.literal hty).mono fun _ hx => hx.loosen (by decide)
  · exact (h.select hty).mono fun _ hx => hx.loosen (by decide)

end Supported

theorem grammar_sound (h : Supported safe p e₀ bound deeper) : Sound safe e₀ (grammar p hasDepth deeper) bound := by
  intro level ty hty
  cases level with
  | whole => exact h.whole hty
  | select => exact h.select hty
  | or => exact h.or hty
  | and => exact h.and hty
  | not => exact h.not hty
  | compare => exact h.compare hty
  | sum => exact h.sum hty
  | product => exact h.product hty
  | negate => exact h.negate hty
  | power => exact h.power hty
  | query => exact h.query hty
  | dot => exact h.dot hty
  | matmul => exact h.matmul hty
  | slice => exact h.slice hty
  | element => exact h.element hty
  | atom => exact h.atom hty

/-! ## The levels tied together -/

section
variable (hvalid : e₀.Valid p) {room : Nat} (hdeep : safe .depthOverflow → 3 ≤ room)
include hvalid hdeep

theorem levels_sound (hbound : p.dimensionBound ≤ bound) {depth : Nat}
    (hroom : bound + 5 * (depth + 1) < 0x8000000000000000) : Sound safe e₀ (levels p room depth : Levels σ) bound := by
  induction depth generalizing bound with
  | zero =>
    have hclosed : Sound safe e₀ (closed room : Levels σ) (bound + 5) := closed_sound hvalid (by omega) hdeep
    exact fun level ty hty => grammar_sound ⟨hvalid, hbound, by omega, hclosed⟩ level ty hty
  | succ depth ih =>
    have hdeeper : Sound safe e₀ (levels p room depth : Levels σ) (bound + 5) := ih (by omega) (by omega)
    exact fun level ty hty => grammar_sound ⟨hvalid, hbound, by omega, hdeeper⟩ level ty hty

theorem deeperThan_sound (hbound : p.dimensionBound ≤ bound) {depth : Nat}
    (hroom : bound + 5 * (depth + 1) < 0x8000000000000000) :
    Sound safe e₀ (deeperThan p room depth : Levels σ) bound := by
  cases depth with
  | zero => exact closed_sound hvalid hbound hdeep
  | succ depth => exact levels_sound hvalid hdeep hbound (by omega)

end

/-! ## Expressions at a nesting depth

An expression ends at most three literals deeper than at the last depth that combines: in a record, a vector of the
record and an entry of the vector. -/

section
variable (hvalid : e₀.Valid p) (hbound : p.dimensionBound ≤ bound)
  (hroom : bound + 5 * (p.maxExprDepth + 1) < 0x8000000000000000)
include hvalid hbound hroom

omit hvalid hbound in
theorem roomAt_of_lt {depth : Nat} (hdepth : depth + 3 < limit64) : 3 ≤ roomAt p depth := by
  unfold roomAt limit64 at *
  omega

theorem generate_keeps (hty : ty.Sized e₀.records bound) : Keeps safe e₀ (generate p ty) (Fits e₀ .whole ty) := by
  have hlevels : Sound safe e₀ (atDepth p 0 : Levels σ) bound :=
    levels_sound hvalid (fun _ => roomAt_of_lt hroom (by decide)) hbound (by omega)
  exact refill_keeps.bind fun _ _ => hlevels .whole ty hty

variable {depth : Nat} (hdeep : safe .depthOverflow → depth + 3 < limit64)
include hdeep

theorem atDepth_sound : Sound safe e₀ (atDepth p depth : Levels σ) bound :=
  levels_sound hvalid (fun hsafe => roomAt_of_lt hroom (hdeep hsafe)) hbound (by omega)

theorem operand_keeps (hty : ty.Sized e₀.records bound) : Keeps safe e₀ (operand p ty depth) (Fits e₀ .whole ty) :=
  .ite (fun _ => generate_keeps hvalid hbound hroom hty)
    fun _ => atDepth_sound hvalid hbound hroom hdeep .whole ty hty

theorem deeperAt_sound :
    Sound safe e₀ (deeperThan p (roomAt p depth) (p.maxExprDepth - depth) : Levels σ) bound :=
  deeperThan_sound hvalid (fun hsafe => roomAt_of_lt hroom (hdeep hsafe)) hbound (by omega)

theorem literalAt_keeps (hty : ty.Sized e₀.records bound) : Keeps safe e₀ (literalAt p depth ty) (Fits e₀ .atom ty) :=
  literal_keeps hvalid (deeperAt_sound hvalid hbound hroom hdeep) hbound hty

theorem callAt_keeps {params : List Ty} (hparams : ∀ param ∈ params, param.Sized e₀.records bound)
    (function : String) : Keeps safe e₀ (callAt p depth function params) fun x => ∃ args, x = .call function args ∧
      args.length = params.length ∧ ∀ part ∈ args.zip params, Fits e₀ .select part.2 part.1 :=
  drawCall_keeps (fun param hparam => (deeperAt_sound hvalid hbound hroom hdeep).part (hparams param hparam)) function

end

end Expr

end TensorFuzz
