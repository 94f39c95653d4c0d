import TensorFuzz.Proofs.Engine.Ending
import TensorFuzz.Proofs.Expr.Drawn
import TensorFuzz.Proofs.Expr.Literals

/-!
# Expressions end

An operand goes down one level of depth with each combination, and where no depth is left only literals are drawn,
whose parts nest as deep as their type does: a record of vectors of numbers is the deepest. So generating an
expression ends whatever is drawn, also if every chance succeeds and if the literal begins past the last depth.
-/

namespace TensorFuzz

open Gen

variable {σ : Type} [RandomSource σ] {roomy : Prop}

/-! ## Checked types -/

namespace Ty

theorem vectorOf_brief (kind : Kind) (length : Nat) : Brief roomy (vectorOf kind length) := by
  unfold vectorOf
  split
  · rintro _ ⟨⟩
    simp [Faults.lasting]
  · rintro _ ⟨⟩

theorem matrixOf_brief (kind : Kind) (rows cols : Nat) : Brief roomy (matrixOf kind rows cols) := by
  unfold matrixOf
  split
  · rintro _ ⟨⟩
    simp [Faults.lasting]
  · rintro _ ⟨⟩

theorem asVector_brief (ty : Ty) (length : Nat) : Brief roomy (ty.asVector length) := by
  unfold asVector
  split
  · exact vectorOf_brief _ _
  · exact nofun

theorem asMatrix_brief (ty : Ty) (rows cols : Nat) : Brief roomy (ty.asMatrix rows cols) := by
  unfold asMatrix
  split
  · exact matrixOf_brief _ _ _
  · exact nofun

theorem productOperands_brief (ty : Ty) (shared : Nat) (vectorOnLeft : Bool) :
    Brief roomy (ty.productOperands shared vectorOnLeft) := by
  unfold productOperands
  split
  · split
    · exact nofun
    · split
      · exact (vectorOf_brief _ _).bind fun _ => (matrixOf_brief _ _ _).bind fun _ => nofun
      · exact (matrixOf_brief _ _ _).bind fun _ => (vectorOf_brief _ _).bind fun _ => nofun
  · split
    · exact nofun
    · exact (matrixOf_brief _ _ _).bind fun _ => (matrixOf_brief _ _ _).bind fun _ => nofun
  · exact (vectorOf_brief _ _).bind fun _ => nofun
  · exact (vectorOf_brief _ _).bind fun _ => nofun
  · exact nofun

end Ty

namespace Expr

/-! ## Literals -/

section
variable {inner : Ty → Gen σ Expr}

theorem intLiteral_ends : Ends roomy (intLiteral : Gen σ Expr) :=
  (Ends.draw (Draw.below_yields .short (by decide))).andThen fun _ => .pure trivial

theorem floatLiteral_ends : Ends roomy (floatLiteral : Gen σ Expr) :=
  (Ends.draw Draw.hundredThousandths_yields).andThen fun _ => .pure trivial

theorem vectorLiteral_ends (h : Ends roomy (inner .float)) (kind : Kind) (length : Nat) :
    Ends roomy (vectorLiteral inner kind length) := by
  have hentry : Ends roomy (entryLiteral inner kind) := by
    cases kind with
    | int => exact intLiteral_ends
    | float => exact (Ends.chance _).andThen fun _ => .ite (fun _ => floatLiteral_ends) fun _ => h
  exact (hentry.times length).andThen fun _ => .pure trivial

/-- A literal ends if those of its parts do that may be any expression. The fields of a record are no records. -/
theorem drawLiteral_ends {ty : Ty} (h : ∀ part : Ty, part.nesting < ty.nesting → Ends roomy (inner part)) :
    Ends roomy (drawLiteral inner ty) := by
  cases ty with
  | bool => exact Ends.coin.andThen fun _ => .pure trivial
  | int => exact intLiteral_ends
  | float => exact floatLiteral_ends
  | string => exact (Ends.pick? strings).andThen fun _ => .pure trivial
  | void => exact .pure trivial
  | vector kind length => exact vectorLiteral_ends (h .float Nat.one_pos) kind length
  | matrix kind rows cols =>
    have hrow := vectorLiteral_ends (h .float Nat.one_pos) kind cols
    exact (hrow.times rows).andThen fun _ => .pure trivial
  | record id =>
    refine Ends.look fun e he => (Ends.mapM fun field hfield => ?_).andThen fun _ => .pure trivial
    exact h field.ty (Nat.lt_succ_of_le (Ty.nesting_le_one (he.getD_fields id field hfield)))

end

/-- The literals past the last depth end before their room does. -/
theorem closedLiteral_ends {room : Nat} {ty : Ty} (h : roomy → ty.nesting < room) :
    Ends roomy (closedLiteral room ty : Gen σ Expr) := by
  induction room generalizing ty with
  | zero =>
    rintro e - (hendless | ⟨-, hroom⟩)
    · cases hendless
    · exact absurd (h hroom) (Nat.not_lt_zero _)
  | succ room ih =>
    refine drawLiteral_ends fun part hpart => ih fun hroom => ?_
    have := h hroom
    omega

/-! ## Combinations -/

section
variable {p : Profile} {hasDepth : Bool} {deeper : Levels σ}

theorem combine_ends (chance : Probability) : Ends roomy (combine hasDepth chance : Gen σ Bool) :=
  .of_keeps fun _ => (combine_keeps chance).mono fun _ _ => trivial

/-- A combination, or what the level hands down to. -/
theorem combined_ends {chance : Probability} {combination rest : Gen σ Expr} (h : Ends roomy combination)
    (hrest : Ends roomy rest) :
    Ends roomy (combine hasDepth chance >>= fun combines => if combines then combination else rest) :=
  (combine_ends chance).andThen fun _ => .ite (fun _ => h) fun _ => hrest

/-- A combination for some types only. -/
theorem combined_if_ends {c : Prop} [Decidable c] {chance : Probability} {combination rest : Gen σ Expr}
    (h : c → Ends roomy combination) (hrest : Ends roomy rest) :
    Ends roomy (if c then combine hasDepth chance >>= fun combines => if combines then combination else rest else rest) :=
  .ite (fun hc => combined_ends (h hc) hrest) fun _ => hrest

/-- The levels of operands end. -/
abbrev LevelsEnd (roomy : Prop) (deeper : Levels σ) : Prop := ∀ level ty, Ends roomy (deeper level ty)

variable (h : LevelsEnd roomy deeper)
include h

/-- An expression of one operand. -/
theorem unary_ends {level : Level} {ty : Ty} {f : Expr → Expr} : Ends roomy (do return f (← deeper level ty)) :=
  (h level ty).andThen fun _ => .pure trivial

/-- An expression of two operands. -/
theorem binary_ends {level level' : Level} {ty ty' : Ty} {f : Expr → Expr → Expr} :
    Ends roomy (do
      let x ← deeper level ty
      return f x (← deeper level' ty')) :=
  (h level ty).andThen fun _ => unary_ends h

/-! ## Atoms -/

theorem drawCall_ends (function : String) (params : List Ty) : Ends roomy (drawCall deeper function params) :=
  (Ends.mapM fun param _ => h .whole param).andThen fun _ => .pure trivial

theorem drawUse_ends (binding : Binding) (ty : Ty) : Ends roomy (drawUse hasDepth deeper binding ty) := by
  have hcall {f : Expr → Option Expr} {chance : Probability} : Ends roomy
      (if binding.isFunction then do
          if ← combine hasDepth chance then
            return f (← drawCall deeper binding.name binding.params)
          return none
        else return f (.name binding.name)) := by
    refine .ite (fun _ => (combine_ends chance).andThen fun _ => .ite (fun _ => ?_) fun _ => .pure trivial) fun _ =>
      .pure trivial
    exact (drawCall_ends h _ _).andThen fun _ => .pure trivial
  unfold drawUse
  split
  · refine Ends.look fun e _ => ?_
    split
    · exact .pure trivial
    · exact hcall
  · exact hcall

theorem drawReference_ends (ty : Ty) : Ends roomy (drawReference hasDepth deeper ty) := by
  refine Ends.look fun e _ => (Ends.pick? _).andThen fun found => ?_
  cases found with
  | none => exact .pure trivial
  | some binding => exact drawUse_ends h binding ty

variable (ty : Ty)

theorem literalOf_ends : Ends roomy (drawLiteral (deeper .whole) ty) := drawLiteral_ends fun part _ => h .whole part

theorem drawAtom_ends : Ends roomy (drawAtom hasDepth deeper ty) := by
  refine combined_ends (unary_ends h) (Ends.coin.andThen fun _ => .ite (fun _ => ?_) fun _ => literalOf_ends h ty)
  refine (drawReference_ends h ty).andThen fun found => ?_
  cases found with
  | none => exact literalOf_ends h ty
  | some x => exact .pure trivial

/-! ## Vectors and matrices -/

theorem drawElement_ends : Ends roomy (drawElement p hasDepth deeper ty) := by
  have hentry : Ends roomy
      (do
        let source ← Gen.orFault (ty.asVector (← Gen.dimension p))
        let source ← deeper .atom source
        return .entry source (← deeper .whole .int) : Gen σ Expr) :=
    (Ends.dimension p).andThen fun n => .orFault (ty.asVector_brief n) fun source _ => binary_ends h
  unfold drawElement
  cases ty with
  | int => exact combined_ends hentry (drawAtom_ends h _)
  | float => exact combined_ends hentry (drawAtom_ends h _)
  | vector kind length =>
    refine combined_if_ends (fun _ => ?_) (drawAtom_ends h _)
    exact (Ends.dimension p).andThen fun n => .orFault (Ty.asMatrix_brief _ _ _) fun source _ => binary_ends h
  | _ => exact drawAtom_ends h _

omit ty in
/-- The bounds of a slice are constants that fit a signed word. -/
theorem drawSliceOf_ends (source : Expr) {lo hi : Int} (hlo : Fits64 lo) (hhi : Fits64 hi) :
    Ends roomy (drawSliceOf p deeper source lo hi) :=
  (Ends.constant p hlo).andThen fun _ => (h _ _).andThen fun _ => (Ends.constant p hhi).andThen fun _ => .pure trivial

omit ty in
theorem drawWindowOf_ends (source : Expr) {a b c d : Int} (ha : Fits64 a) (hb : Fits64 b) (hc : Fits64 c)
    (hd : Fits64 d) : Ends roomy (drawWindowOf p deeper source a b c d) :=
  (Ends.constant p ha).andThen fun _ => (h _ _).andThen fun _ => (Ends.constant p hb).andThen fun _ =>
    (Ends.constant p hc).andThen fun _ => (h _ _).andThen fun _ => (Ends.constant p hd).andThen fun _ => .pure trivial

omit h ty in
theorem sourceSize_ends (length : Nat) : Ends roomy (sourceSize length : Gen σ Nat) := .of_keeps fun _ =>
  (sourceSize_keeps fun hsafe => by simp [Faults.lasting] at hsafe).mono fun _ _ => trivial

omit h ty in
theorem lastIndex_brief (start : Int) (length : Nat) : Brief roomy (lastIndex start length) := by
  unfold lastIndex
  dsimp only
  split
  · rintro _ ⟨⟩
    simp [Faults.lasting]
  · split
    · rintro _ ⟨⟩
      simp [Faults.lasting]
    · rintro _ ⟨⟩

omit h ty in
theorem start_ends : Ends roomy (draw (Draw.intIn (-5) 5) : Gen σ Int) Fits64 :=
  (Ends.draw (Draw.intIn_yields (by decide) (by decide))).mono fun _ h => h.1

theorem drawNumberSlice_ends : Ends roomy (drawNumberSlice p deeper ty) := by
  have hoffset (size : Nat) : Ends roomy (draw (Draw.centeredOffset size) : Gen σ Int) Fits64 :=
    .draw (Draw.centeredOffset_yields size)
  refine (Ends.chance _).andThen fun _ => .ite (fun _ => ?_) fun _ => ?_
  · refine (Ends.dimension p).andThen fun size => (hoffset size).bind fun offset hfits => ?_
    refine .orFault (ty.asVector_brief size) fun source _ => (h _ source).andThen fun x => ?_
    exact drawSliceOf_ends h x hfits hfits
  · refine (Ends.dimension p).andThen fun rows => (Ends.dimension p).andThen fun cols => ?_
    refine (hoffset rows).bind fun row hrow => (hoffset cols).bind fun col hcol => ?_
    refine .orFault (ty.asMatrix_brief rows cols) fun source _ => (h _ source).andThen fun x => ?_
    exact drawWindowOf_ends h x hrow hrow hcol hcol

omit ty in
theorem drawVectorSlice_ends (kind : Kind) (length : Nat) : Ends roomy (drawVectorSlice p deeper kind length) := by
  refine start_ends.bind fun start hstart => .orFault (lastIndex_brief start length) fun last hlast => ?_
  have hfits := (lastIndex_eq_ok_iff.mp hlast).2.1
  refine (Ends.chance _).andThen fun _ => .ite (fun _ => ?_) fun _ => ?_
  · refine (sourceSize_ends length).andThen fun size => .orFault (Ty.vectorOf_brief kind size) fun source _ => ?_
    exact (h _ source).andThen fun x => drawSliceOf_ends h x hstart hfits
  · refine start_ends.bind fun row hrow => (Ends.dimension p).andThen fun rows => ?_
    refine (sourceSize_ends length).andThen fun cols => .orFault (Ty.matrixOf_brief kind rows cols) fun source _ => ?_
    exact (h _ source).andThen fun x => drawWindowOf_ends h x hrow hrow hstart hfits

omit ty in
theorem drawMatrixSlice_ends (kind : Kind) (rows cols : Nat) : Ends roomy (drawMatrixSlice p deeper kind rows cols) := by
  refine start_ends.bind fun row hrow => .orFault (lastIndex_brief row rows) fun lastRow hlastRow => ?_
  refine start_ends.bind fun col hcol => .orFault (lastIndex_brief col cols) fun lastCol hlastCol => ?_
  refine (sourceSize_ends rows).andThen fun m => (sourceSize_ends cols).andThen fun n => ?_
  refine .orFault (Ty.matrixOf_brief kind m n) fun source _ => (h _ source).andThen fun x => ?_
  exact drawWindowOf_ends h x hrow (lastIndex_eq_ok_iff.mp hlastRow).2.1 hcol (lastIndex_eq_ok_iff.mp hlastCol).2.1

theorem drawSlice_ends : Ends roomy (drawSlice p hasDepth deeper ty) := by
  unfold drawSlice
  cases ty with
  | int => exact combined_ends (drawNumberSlice_ends h _) (drawElement_ends h _)
  | float => exact combined_ends (drawNumberSlice_ends h _) (drawElement_ends h _)
  | vector kind length => exact combined_if_ends (fun _ => drawVectorSlice_ends h kind length) (drawElement_ends h _)
  | matrix kind rows cols =>
    exact combined_if_ends (fun _ => drawMatrixSlice_ends h kind rows cols) (drawElement_ends h _)
  | _ => exact drawElement_ends h _

theorem drawMatmul_ends : Ends roomy (drawMatmul p hasDepth deeper ty) := by
  refine (Ends.dimension p).andThen fun shared => Ends.coin.andThen fun vectorOnLeft => ?_
  refine .orFault (ty.productOperands_brief shared vectorOnLeft) fun operands _ => ?_
  match operands with
  | none => exact drawSlice_ends h ty
  | some (left, right) => exact combined_ends (binary_ends h) (drawSlice_ends h ty)

theorem drawDot_ends : Ends roomy (drawDot p hasDepth deeper ty) := by
  refine combined_if_ends (fun _ => ?_) (drawMatmul_ends h ty)
  exact (Ends.dimension p).andThen fun n => .orFault (ty.asVector_brief n) fun operand _ => binary_ends h

theorem drawQuery_ends : Ends roomy (drawQuery p hasDepth deeper ty) := by
  refine combined_if_ends (fun _ => ?_) (drawDot_ends h ty)
  refine Ends.kind.andThen fun kind => (Ends.dimension p).andThen fun rows => (Ends.dimension p).andThen fun cols => ?_
  refine Ends.coin.andThen fun _ => .ite (fun _ => ?_) fun _ => ?_
  · exact .orFault (Ty.vectorOf_brief kind rows) fun source _ => unary_ends h
  · exact Ends.coin.andThen fun _ => .orFault (Ty.matrixOf_brief kind rows cols) fun source _ => unary_ends h

/-! ## Arithmetic -/

theorem drawPower_ends : Ends roomy (drawPower p hasDepth deeper ty) :=
  combined_if_ends (fun _ => binary_ends h) (combined_if_ends (fun _ => binary_ends h) (drawQuery_ends h ty))

theorem drawNegate_ends : Ends roomy (drawNegate p hasDepth deeper ty) :=
  combined_if_ends (fun _ => unary_ends h) (drawPower_ends h ty)

theorem drawProduct_ends : Ends roomy (drawProduct hasDepth deeper ty) := by
  refine combined_if_ends (fun _ => .ite (fun _ => ?_) fun _ => binary_ends h)
    (combined_if_ends (fun _ => Ends.coin.andThen fun _ => .ite (fun _ => binary_ends h) fun _ => binary_ends h)
      (drawAtom_ends h ty))
  exact Ends.andThen (P := fun _ => True) (Ends.coin.andThen fun _ => .pure trivial) fun op => binary_ends h

theorem drawSum_ends : Ends roomy (drawSum hasDepth deeper ty) :=
  combined_if_ends (fun _ => Ends.coin.andThen fun _ => binary_ends h)
    (combined_if_ends (fun _ => Ends.coin.andThen fun _ => .ite (fun _ => binary_ends h) fun _ => binary_ends h)
      (drawAtom_ends h ty))

/-! ## Truth values -/

theorem drawCompare_ends : Ends roomy (drawCompare hasDepth deeper ty) :=
  combined_if_ends (fun _ => Ends.kind.andThen fun _ => (Ends.pick? _).andThen fun _ => binary_ends h)
    (drawSum_ends h ty)

theorem drawNot_ends : Ends roomy (drawNot hasDepth deeper ty) :=
  combined_if_ends (fun _ => unary_ends h) (drawCompare_ends h ty)

theorem drawAnd_ends : Ends roomy (drawAnd hasDepth deeper ty) :=
  combined_if_ends (fun _ => binary_ends h) (drawNot_ends h ty)

theorem drawOr_ends : Ends roomy (drawOr hasDepth deeper ty) :=
  combined_if_ends (fun _ => binary_ends h) (drawAnd_ends h ty)

theorem drawSelect_ends : Ends roomy (drawSelect hasDepth deeper ty) :=
  combined_ends ((h _ _).andThen fun _ => binary_ends h) (drawOr_ends h ty)

theorem drawWhole_ends : Ends roomy (drawWhole hasDepth deeper ty) :=
  Ends.look fun _ _ => .ite (fun _ => literalOf_ends h ty) fun _ => drawSelect_ends h ty

/-- Each level ends if those of its operands do. -/
theorem grammar_ends (level : Level) : Ends roomy (grammar p hasDepth deeper level ty) := by
  cases level with
  | whole => exact drawWhole_ends h ty
  | select => exact drawSelect_ends h ty
  | or => exact drawOr_ends h ty
  | and => exact drawAnd_ends h ty
  | not => exact drawNot_ends h ty
  | compare => exact drawCompare_ends h ty
  | sum => exact drawSum_ends h ty
  | product => exact drawProduct_ends h ty
  | negate => exact drawNegate_ends h ty
  | power => exact drawPower_ends h ty
  | query => exact drawQuery_ends h ty
  | dot => exact drawDot_ends h ty
  | matmul => exact drawMatmul_ends h ty
  | slice => exact drawSlice_ends h ty
  | element => exact drawElement_ends h ty
  | atom => exact drawAtom_ends h ty

end

/-! ## The levels tied together -/

section
variable (p : Profile) {room : Nat} (h : roomy → 3 ≤ room)
include h

theorem closed_end : LevelsEnd roomy (closed room : Levels σ) := fun _ ty => closedLiteral_ends fun hroomy => by
  have hle := h hroomy
  have hnesting := ty.nesting_le_two
  omega

theorem levels_end (depth : Nat) : LevelsEnd roomy (levels p room depth : Levels σ) := by
  induction depth with
  | zero => exact fun level ty => grammar_ends (closed_end h) ty level
  | succ depth ih => exact fun level ty => grammar_ends ih ty level

theorem deeperThan_ends (depth : Nat) : LevelsEnd roomy (deeperThan p room depth : Levels σ) := by
  cases depth with
  | zero => exact closed_end h
  | succ depth => exact levels_end p h depth

end

variable {p : Profile} {depth : Nat} (h : roomy → max p.maxExprDepth depth + 3 < limit64)
include h

theorem roomAt_of_roomy (hroomy : roomy) : 3 ≤ roomAt p depth := by
  have := h hroomy
  unfold roomAt limit64 at *
  omega

theorem atDepth_ends : LevelsEnd roomy (atDepth p depth : Levels σ) := levels_end p (roomAt_of_roomy h) _

omit h in
theorem generate_ends (h : roomy → p.maxExprDepth + 3 < limit64) (ty : Ty) :
    Ends roomy (generate p ty : Gen σ Expr) := by
  have hrefill : Ends roomy (refill p : Gen σ Unit) := .update (fun _ => id) fun _ => rfl
  have hlevels : LevelsEnd roomy (atDepth p 0 : Levels σ) := atDepth_ends fun hroomy => by
    have := h hroomy
    omega
  exact hrefill.andThen fun _ => hlevels .whole ty

theorem operand_ends (ty : Ty) : Ends roomy (operand p ty depth : Gen σ Expr) := by
  refine .ite (fun _ => generate_ends (fun hroomy => ?_) ty) fun _ => atDepth_ends h .whole ty
  have := h hroomy
  omega

theorem callAt_ends (function : String) (params : List Ty) :
    Ends roomy (callAt p depth function params : Gen σ Expr) :=
  drawCall_ends (deeperThan_ends p (roomAt_of_roomy h) _) function params

end Expr

/-- The computation goes on only as long as its draws, and leaves room for literals if the profile does: a literal ends
at most three steps behind the last depth. -/
abbrev Gen.EndsFor {α : Type} (p : Profile) (g : Gen σ α) (P : α → Prop := fun _ => True) : Prop :=
  Ends (p.maxExprDepth + 3 < limit64) g P

theorem Expr.generate_endsFor (p : Profile) (ty : Ty) : EndsFor p (generate p ty : Gen σ Expr) := generate_ends id ty

theorem Expr.callAt_endsFor (p : Profile) (function : String) (params : List Ty) :
    EndsFor p (callAt p 0 function params : Gen σ Expr) :=
  callAt_ends (fun hroomy => by rwa [Nat.max_zero]) function params

end TensorFuzz
