import Mathlib.Algebra.GroupWithZero.Nat
import TensorFuzz.Proofs.Expr.Drawn
import TensorFuzz.Proofs.Expr.Generation
import TensorFuzz.Proofs.Expr.Tokens

/-!
# Combinations

What an expression combines of operands is paid for with its nodes: each combination spends one, and nothing else
does. So the combinations in an expression are the nodes that it was given less those that are left. A computation
is charged to its result (`Gen.Spends`), and the charges add up along the generator, in whatever order its parts are
generated.
-/

namespace TensorFuzz

/-! ## Counting -/

namespace Expr

section
variable (join : Nat → Nat → Nat)

mutual

/-- One for each combination, added to what its operands are joined to. Lists, records and fields combine nothing. The
constants that bound a slice are left out. -/
def tally : Expr → Nat
  | nothing | bool _ | int _ | float _ | string _ | name _ => 0
  | list items => tallyAll items
  | record _ values => tallyAll values
  | field source _ => tally source
  | call _ args => tallyAll args + 1
  | group inner => tally inner + 1
  | entry source index | row source index => join (tally source) (tally index) + 1
  | slice source _ step _ => join (tally source) (tally step) + 1
  | window source _ rowStep _ _ colStep _ => join (tally source) (join (tally rowStep) (tally colStep)) + 1
  | query source _ => tally source + 1
  | binary _ left right => join (tally left) (tally right) + 1
  | negate operand | not operand => tally operand + 1
  | select condition yes no => join (tally condition) (join (tally yes) (tally no)) + 1

def tallyAll : List Expr → Nat
  | [] => 0
  | x :: xs => join (tally x) (tallyAll xs)

end

end

/-- The number of combinations in the expression. -/
def combinations (x : Expr) : Nat := x.tally (· + ·)

/-- The length of the longest chain of combinations, each nested inside the one before. -/
def nesting (x : Expr) : Nat := x.tally max

attribute [local simp] tally tallyAll

theorem tallyAll_add (xs : List Expr) : tallyAll (· + ·) xs = (xs.map combinations).sum := by
  induction xs with
  | nil => rfl
  | cons x xs ih => rw [tallyAll, ih, List.map_cons, List.sum_cons, combinations]

theorem tallyAll_max_le {xs : List Expr} {n : Nat} : tallyAll max xs ≤ n ↔ ∀ x ∈ xs, x.nesting ≤ n := by
  induction xs with
  | nil => simp
  | cons x xs ih => rw [tallyAll, Nat.max_le, ih, List.forall_mem_cons, nesting]

/-- A combination is nested in its operands no deeper than there are levels of depth. -/
theorem Drawn.nesting_le {p : Profile} {scope : Scope} {records : Registry} {d : Nat} {ty : Ty} {x : Expr}
    (h : Drawn p scope records d ty x) : x.nesting ≤ d := by
  induction h with
  | nothing | bool | int | float | string | name => exact Nat.zero_le _
  | vector _ ih =>
    have hitems := tallyAll_max_le.mpr ih
    exact Nat.le_trans hitems (Nat.sub_le _ _)
  | @matrix d cols kind rows hlength _ ih =>
    have hrow : ∀ x ∈ rows.map Expr.list, x.nesting ≤ d - 1 := by
      intro x hx
      obtain ⟨row, hrow, rfl⟩ := List.mem_map.mp hx
      exact tallyAll_max_le.mpr (ih row hrow)
    exact Nat.le_trans (tallyAll_max_le.mpr hrow) (Nat.sub_le _ _)
  | record hlength _ ih =>
    have hvalues := tallyAll_max_le.mpr (Check.forall_of_zip hlength ih)
    exact Nat.le_trans hvalues (Nat.sub_le _ _)
  | call _ _ hlength _ ih =>
    have hargs := tallyAll_max_le.mpr (Check.forall_of_zip hlength ih)
    exact Nat.succ_le_succ hargs
  | field _ _ _ ih => exact ih
  | group _ ih | query _ _ _ ih | negate _ _ ih | not _ ih => exact Nat.succ_le_succ ih
  | entry _ _ _ _ ih ih' | row _ _ _ _ ih ih' | slice _ _ _ ih ih' | binary _ _ _ ih ih' =>
    exact Nat.succ_le_succ (Nat.max_le.mpr ⟨ih, ih'⟩)
  | window _ _ _ _ ih ih' ih'' | select _ _ _ ih ih' ih'' =>
    exact Nat.succ_le_succ (Nat.max_le.mpr ⟨ih, Nat.max_le.mpr ⟨ih', ih''⟩⟩)

end Expr

/-! ## Charges -/

variable {σ : Type} {α β : Type}

namespace Gen

/-- Every run spends as many nodes as its result costs, but for those that have been spent on it before. -/
def Spends (spent : Nat) (g : Gen σ α) (cost : α → Nat) : Prop :=
  ∀ ⦃e a e'⦄, g.run e = .ok (a, e') → e'.nodesLeft + cost a = e.nodesLeft + spent

namespace Spends

variable {g g' : Gen σ α} {spent : Nat} {cost : α → Nat} {cost' : β → Nat}

theorem pure {a : α} (h : cost a = spent) : Spends spent (Pure.pure a : Gen σ α) cost := by
  rintro e _ _ ⟨⟩
  rw [h]

/-- What is spent on the first part counts for the rest. -/
theorem bind {f : α → Gen σ β} (h : Spends 0 g cost) (hf : ∀ a, Spends (spent + cost a) (f a) cost') :
    Spends spent (g >>= f) cost' := by
  intro e b e' hrun
  obtain ⟨a, e₁, hg, hrest⟩ := exists_of_run_bind hrun
  have hfirst := h hg
  have hsecond := hf a hrest
  omega

/-- The result of the first part takes over what it is charged. -/
theorem carry {f : α → Gen σ β} (h : Spends spent g cost) (hf : ∀ a, Spends (cost a) (f a) cost') :
    Spends spent (g >>= f) cost' := by
  intro e b e' hrun
  obtain ⟨a, e₁, hg, hrest⟩ := exists_of_run_bind hrun
  exact (hf a hrest).trans (h hg)

/-- The first part spends nothing. -/
theorem after {f : α → Gen σ β} (h : Spends 0 g fun _ => 0) (hf : ∀ a, Spends spent (f a) cost') :
    Spends spent (g >>= f) cost' := h.bind hf

theorem look {f : Engine σ → Gen σ β} (hf : ∀ e, Spends spent (f e) cost') :
    Spends spent (MonadState.get >>= f) cost' := fun e _ _ hrun => hf e hrun

theorem ite {c : Prop} [Decidable c] (h : c → Spends spent g cost) (h' : ¬ c → Spends spent g' cost) :
    Spends spent (if c then g else g') cost := by
  split
  · exact h ‹_›
  · exact h' ‹_›

/-- A fault is never reached by a run with a result. -/
theorem orFault {result : Except Fault α} {f : α → Gen σ β} (hf : ∀ a, Spends spent (f a) cost') :
    Spends spent (Gen.orFault result >>= f) cost' := by
  cases result with
  | error fault => exact fun _ _ _ hrun => nomatch hrun
  | ok a => exact hf a

theorem times (h : Spends 0 g cost) (n : Nat) : Spends 0 (Gen.times g n) fun as => (as.map cost).sum := by
  induction n with
  | zero => exact .pure rfl
  | succ n ih =>
    refine h.bind fun a => ih.bind fun as => .pure ?_
    rw [List.map_cons, List.sum_cons, Nat.zero_add]

theorem mapM {f : β → Gen σ α} (h : ∀ x, Spends 0 (f x) cost) (xs : List β) :
    Spends 0 (xs.mapM f) fun as => (as.map cost).sum := by
  induction xs with
  | nil =>
    rw [List.mapM_nil]
    exact .pure rfl
  | cons x xs ih =>
    rw [List.mapM_cons]
    refine (h x).bind fun a => ih.bind fun as => .pure ?_
    rw [List.map_cons, List.sum_cons, Nat.zero_add]

theorem draw (act : Draw σ α) : Spends 0 (Gen.draw act) fun _ => 0 := by
  intro e a e' hrun
  unfold Gen.draw at hrun
  cases hact : act e.supply with
  | error fault => simp [Gen.run, hact] at hrun
  | ok result =>
    simp only [Gen.run, hact, Except.ok.injEq, Prod.mk.injEq] at hrun
    obtain ⟨-, rfl⟩ := hrun
    rfl

variable [RandomSource σ]

theorem coin : Spends 0 (Gen.coin : Gen σ Bool) fun _ => 0 := Spends.draw (Draw.chance (.ratio 1 2))

theorem kind : Spends 0 (Gen.kind : Gen σ Kind) fun _ => 0 := (Spends.draw _).after fun _ => .pure rfl

end Spends

end Gen

namespace Expr

open Gen

/-! ## Operands -/

/-- Operands cost the combinations that they are made of. -/
def Accounted (deeper : Levels σ) : Prop := ∀ level ty, Spends 0 (deeper level ty) combinations

namespace Accounted

variable {deeper : Levels σ} (h : Accounted deeper)
include h

theorem single {form : Expr → Expr} (hform : ∀ x, (form x).combinations = x.combinations + 1) (level : Level)
    (ty : Ty) : Spends 1 (do return form (← deeper level ty)) combinations := by
  refine (h level ty).bind fun x => .pure ?_
  rw [hform, Nat.add_comm]

theorem pair {form : Expr → Expr → Expr}
    (hform : ∀ x y, (form x y).combinations = x.combinations + y.combinations + 1) (level level' : Level)
    (ty ty' : Ty) : Spends 1 (do
      let x ← deeper level ty
      return form x (← deeper level' ty')) combinations := by
  refine (h level ty).bind fun x => (h level' ty').bind fun y => .pure ?_
  rw [hform]
  omega

theorem binary (op : BinaryOp) (level level' : Level) (ty ty' : Ty) :
    Spends 1 (do
      let x ← deeper level ty
      return .binary op x (← deeper level' ty')) combinations :=
  h.pair (fun _ _ => rfl) level level' ty ty'

theorem call (function : String) (params : List Ty) : Spends 1 (drawCall deeper function params) combinations := by
  refine (Spends.mapM (fun param => h .whole param) params).bind fun args => .pure ?_
  rw [← tallyAll_add, combinations, tally, Nat.add_comm]

end Accounted

/-! ## Combinations of operands -/

variable [RandomSource σ] {p : Profile} {hasDepth : Bool} {deeper : Levels σ}

/-- A node is spent where something is combined. -/
theorem combine_spends (chance : Probability) : Spends 0 (combine hasDepth chance : Gen σ Bool) Bool.toNat := by
  intro e combines e' hrun
  change (if !hasDepth || e.nodesLeft == 0 then _ else _ : Gen σ Bool).run e = _ at hrun
  split at hrun
  · cases hrun
    rfl
  · next hleft =>
    obtain ⟨taken, e₁, hchance, hrest⟩ := exists_of_run_bind hrun
    have hsame : e₁.nodesLeft + 0 = e.nodesLeft + 0 := Spends.draw _ hchance
    have hpositive : e.nodesLeft ≠ 0 := by
      intro hzero
      simp [hzero] at hleft
    cases taken with
    | true =>
      cases hrest
      show e₁.nodesLeft - 1 + 1 = _
      omega
    | false =>
      cases hrest
      exact hsame

section
variable {cost : α → Nat} {chance : Probability} {act next : Gen σ α}

theorem combine_or (hact : Spends 1 act cost) (hnext : Spends 0 next cost) :
    Spends 0 (do if ← combine hasDepth chance then act else next) cost := by
  refine (combine_spends chance).bind fun combines => ?_
  cases combines with
  | true => exact hact
  | false => exact hnext

/-- What a level combines for some types only. -/
theorem combine_if_or {c : Prop} [Decidable c] (hact : Spends 1 act cost) (hnext : Spends 0 next cost) :
    Spends 0 (if c then (do if ← combine hasDepth chance then act else next) else next) cost :=
  .ite (fun _ => combine_or hact hnext) fun _ => hnext

end

/-! ## Literals -/

section
variable {inner : Ty → Gen σ Expr} (h : ∀ ty, Spends 0 (inner ty) combinations)
include h

theorem entryLiteral_spends (kind : Kind) : Spends 0 (entryLiteral inner kind) combinations := by
  cases kind with
  | int => exact (Spends.draw _).after fun _ => .pure rfl
  | float =>
    refine (Spends.draw _).after fun _ => .ite (fun _ => ?_) fun _ => h .float
    exact (Spends.draw _).after fun _ => .pure rfl

theorem vectorLiteral_spends (kind : Kind) (length : Nat) :
    Spends 0 (vectorLiteral inner kind length) combinations := by
  refine ((entryLiteral_spends h kind).times length).bind fun items => .pure ?_
  rw [Nat.zero_add, ← tallyAll_add, combinations, tally]

/-- A literal costs what its parts cost. -/
theorem drawLiteral_spends (ty : Ty) : Spends 0 (drawLiteral inner ty) combinations := by
  cases ty with
  | bool => exact Spends.coin.after fun _ => .pure rfl
  | int | float | string =>
    refine Spends.after (Spends.draw _) fun _ => ?_
    exact .pure rfl
  | void => exact .pure rfl
  | vector kind length => exact vectorLiteral_spends h kind length
  | matrix kind rows cols =>
    refine ((vectorLiteral_spends h kind cols).times rows).bind fun items => .pure ?_
    rw [Nat.zero_add, ← tallyAll_add, combinations, tally]
  | record id =>
    refine .look fun e => (Spends.mapM (fun field : Field => h field.ty) _).bind fun values => .pure ?_
    rw [Nat.zero_add, ← tallyAll_add, combinations, tally]

end

theorem closedLiteral_spends (room : Nat) (ty : Ty) : Spends 0 (closedLiteral room ty : Gen σ Expr) combinations := by
  induction room generalizing ty with
  | zero => exact fun _ _ _ hrun => nomatch hrun
  | succ room ih => exact drawLiteral_spends ih ty

/-! ## Levels -/

theorem sourceSize_spends (length : Nat) : Spends 0 (sourceSize length : Gen σ Nat) fun _ => 0 :=
  (Spends.draw _).after fun _ => .ite (fun _ => .pure rfl) fun _ _ _ _ hrun => nomatch hrun

namespace Accounted

variable (h : Accounted deeper)
include h

/-! ### Atoms -/

/-- A call is all that a use of a binding combines. -/
theorem use (b : Binding) (ty : Ty) :
    Spends 0 (drawUse hasDepth deeper b ty) fun found => (found.map combinations).getD 0 := by
  unfold drawUse
  split
  · refine .look fun e => ?_
    split
    · exact .pure rfl
    · refine .ite (fun _ => combine_or ?_ (.pure rfl)) fun _ => .pure rfl
      exact (h.call b.name b.params).carry fun x => .pure rfl
  · refine .ite (fun _ => combine_or ?_ (.pure rfl)) fun _ => .pure rfl
    exact (h.call b.name b.params).carry fun x => .pure rfl

theorem reference (ty : Ty) :
    Spends 0 (drawReference hasDepth deeper ty) fun found => (found.map combinations).getD 0 := by
  refine .look fun e => (Spends.draw _).after fun found => ?_
  cases found with
  | none => exact .pure rfl
  | some b => exact h.use b ty

theorem atom (ty : Ty) : Spends 0 (drawAtom hasDepth deeper ty) combinations := by
  have hliteral : Spends 0 (drawLiteral (deeper .whole) ty) combinations := drawLiteral_spends (h .whole) ty
  refine combine_or (h.single (fun _ => rfl) .whole ty) ?_
  refine Spends.coin.after fun _ => .ite (fun _ => (h.reference ty).bind fun found => ?_) fun _ => hliteral
  cases found with
  | none => exact hliteral
  | some x => exact .pure (Nat.zero_add _).symm

/-! ### Vectors and matrices -/

theorem element (ty : Ty) : Spends 0 (drawElement p hasDepth deeper ty) combinations := by
  unfold drawElement
  cases ty with
  | int | float =>
    refine combine_or ((Spends.draw _).after fun n => .orFault fun source => ?_) (h.atom _)
    exact h.pair (fun _ _ => rfl) .atom .whole source .int
  | vector kind length =>
    refine combine_if_or ((Spends.draw _).after fun n => .orFault fun source => ?_) (h.atom _)
    exact h.pair (fun _ _ => rfl) .atom .whole source .int
  | _ => exact h.atom _

theorem sliceOf (source : Expr) (lo hi : Int) :
    Spends (1 + source.combinations) (drawSliceOf p deeper source lo hi) combinations := by
  refine (Spends.draw _).after fun first => (h .whole .int).bind fun step => (Spends.draw _).after fun last => .pure ?_
  simp only [combinations, tally]
  omega

theorem windowOf (source : Expr) (rowLo rowHi colLo colHi : Int) :
    Spends (1 + source.combinations) (drawWindowOf p deeper source rowLo rowHi colLo colHi) combinations := by
  refine (Spends.draw _).after fun firstRow => (h .whole .int).bind fun rowStep => ?_
  refine (Spends.draw _).after fun lastRow => (Spends.draw _).after fun firstCol => ?_
  refine (h .whole .int).bind fun colStep => (Spends.draw _).after fun lastCol => .pure ?_
  simp only [combinations, tally]
  omega

theorem numberSlice (ty : Ty) : Spends 1 (drawNumberSlice p deeper ty) combinations := by
  refine (Spends.draw _).after fun _ => .ite (fun _ => ?_) fun _ => ?_
  · refine (Spends.draw _).after fun size => (Spends.draw _).after fun offset => .orFault fun source => ?_
    exact (h .element source).bind fun x => h.sliceOf x offset offset
  · refine (Spends.draw _).after fun rows => (Spends.draw _).after fun cols => (Spends.draw _).after fun row => ?_
    refine (Spends.draw _).after fun col => .orFault fun source => ?_
    exact (h .element source).bind fun x => h.windowOf x row row col col

theorem vectorSlice (kind : Kind) (length : Nat) : Spends 1 (drawVectorSlice p deeper kind length) combinations := by
  refine (Spends.draw _).after fun start => .orFault fun last => (Spends.draw _).after fun _ => ?_
  refine .ite (fun _ => (sourceSize_spends length).after fun size => .orFault fun source => ?_) fun _ => ?_
  · exact (h .element source).bind fun x => h.sliceOf x _ _
  · refine (Spends.draw _).after fun row => (Spends.draw _).after fun rows => (sourceSize_spends length).after fun cols => ?_
    exact .orFault fun source => (h .element source).bind fun x => h.windowOf x _ _ _ _

theorem matrixSlice (kind : Kind) (rows cols : Nat) :
    Spends 1 (drawMatrixSlice p deeper kind rows cols) combinations := by
  refine (Spends.draw _).after fun row => .orFault fun lastRow => ?_
  refine (Spends.draw _).after fun col => .orFault fun lastCol => ?_
  refine (sourceSize_spends rows).after fun _ => (sourceSize_spends cols).after fun _ => .orFault fun source => ?_
  exact (h .element source).bind fun x => h.windowOf x _ _ _ _

theorem slice (ty : Ty) : Spends 0 (drawSlice p hasDepth deeper ty) combinations := by
  unfold drawSlice
  cases ty with
  | int | float => exact combine_or (h.numberSlice _) (h.element _)
  | vector kind length => exact combine_if_or (h.vectorSlice kind length) (h.element _)
  | matrix kind rows cols => exact combine_if_or (h.matrixSlice kind rows cols) (h.element _)
  | _ => exact h.element _

theorem matmul (ty : Ty) : Spends 0 (drawMatmul p hasDepth deeper ty) combinations := by
  refine (Spends.draw _).after fun shared => Spends.coin.after fun vectorOnLeft => .orFault fun operands => ?_
  match operands with
  | none => exact h.slice ty
  | some (left, right) => exact combine_or (h.binary _ _ _ left right) (h.slice ty)

theorem dot (ty : Ty) : Spends 0 (drawDot p hasDepth deeper ty) combinations := by
  refine combine_if_or ((Spends.draw _).after fun n => .orFault fun operand => ?_) (h.matmul ty)
  exact h.binary _ _ _ operand operand

theorem query (ty : Ty) : Spends 0 (drawQuery p hasDepth deeper ty) combinations := by
  refine combine_if_or ?_ (h.dot ty)
  refine Spends.kind.after fun kind => (Spends.draw _).after fun rows => (Spends.draw _).after fun cols => ?_
  refine Spends.coin.after fun _ => .ite (fun _ => .orFault fun source => ?_) fun _ => ?_
  · exact h.single (fun _ => rfl) .dot source
  · exact Spends.coin.after fun _ => .orFault fun source => h.single (fun _ => rfl) .dot source

/-! ### Arithmetic -/

theorem power (ty : Ty) : Spends 0 (drawPower p hasDepth deeper ty) combinations :=
  combine_if_or (h.binary _ _ _ _ _) (combine_if_or (h.binary _ _ _ _ _) (h.query ty))

theorem negate (ty : Ty) : Spends 0 (drawNegate p hasDepth deeper ty) combinations :=
  combine_if_or (h.single (fun _ => rfl) .power ty) (h.power ty)

theorem product (ty : Ty) : Spends 0 (drawProduct hasDepth deeper ty) combinations := by
  refine combine_if_or ?_ (combine_if_or ?_ (h.atom ty))
  · refine .ite (fun _ => ?_) fun _ => h.binary _ _ _ _ _
    have hop : Spends 0 (do return if ← coin then BinaryOp.divide else .multiply : Gen σ BinaryOp) fun _ => 0 :=
      Spends.coin.after fun _ => .pure rfl
    exact hop.after fun op => h.binary op _ _ _ _
  · exact Spends.coin.after fun _ => .ite (fun _ => h.binary _ _ _ _ _) fun _ => h.binary _ _ _ _ _

theorem sum (ty : Ty) : Spends 0 (drawSum hasDepth deeper ty) combinations := by
  refine combine_if_or ?_ (combine_if_or ?_ (h.atom ty))
  · exact Spends.coin.after fun _ => h.binary _ _ _ _ _
  · exact Spends.coin.after fun _ => .ite (fun _ => h.binary _ _ _ _ _) fun _ => h.binary _ _ _ _ _

/-! ### Truth values -/

theorem compare (ty : Ty) : Spends 0 (drawCompare hasDepth deeper ty) combinations := by
  refine combine_if_or ?_ (h.sum ty)
  exact Spends.kind.after fun kind => (Spends.draw _).after fun op => h.binary _ _ _ _ _

theorem not (ty : Ty) : Spends 0 (drawNot hasDepth deeper ty) combinations :=
  combine_if_or (h.single (fun _ => rfl) .compare ty) (h.compare ty)

theorem and (ty : Ty) : Spends 0 (drawAnd hasDepth deeper ty) combinations :=
  combine_if_or (h.binary _ _ _ _ _) (h.not ty)

theorem or (ty : Ty) : Spends 0 (drawOr hasDepth deeper ty) combinations :=
  combine_if_or (h.binary _ _ _ _ _) (h.and ty)

theorem select (ty : Ty) : Spends 0 (drawSelect hasDepth deeper ty) combinations := by
  refine combine_or ?_ (h.or ty)
  refine (h .or .bool).bind fun condition => (h .or ty).bind fun yes => (h .or ty).bind fun no => .pure ?_
  simp only [combinations, tally]
  omega

theorem whole (ty : Ty) : Spends 0 (drawWhole hasDepth deeper ty) combinations :=
  .look fun _ => .ite (fun _ => drawLiteral_spends (h .whole) ty) fun _ => h.select ty

theorem grammar : Accounted (grammar p hasDepth deeper) := by
  intro level ty
  cases level with
  | whole => exact h.whole ty
  | select => exact h.select ty
  | or => exact h.or ty
  | and => exact h.and ty
  | not => exact h.not ty
  | compare => exact h.compare ty
  | sum => exact h.sum ty
  | product => exact h.product ty
  | negate => exact h.negate ty
  | power => exact h.power ty
  | query => exact h.query ty
  | dot => exact h.dot ty
  | matmul => exact h.matmul ty
  | slice => exact h.slice ty
  | element => exact h.element ty
  | atom => exact h.atom ty

end Accounted

theorem levels_accounted (room d : Nat) : Accounted (levels p room d : Levels σ) := by
  have hclosed : Accounted (closed room : Levels σ) := fun _ => closedLiteral_spends room
  induction d with
  | zero => exact hclosed.grammar
  | succ d ih => exact ih.grammar

/-! ## The budget -/

/-- From every state: the combinations of a new expression are the nodes that it may have less those that are left
after it, so they are no more than the profile allows; and no chain of combinations is longer than it allows. -/
theorem node_budget_exact {e e' : Engine σ} {ty : Ty} {x : Expr} (hrun : (generate p ty).run e = .ok (x, e')) :
    (e'.nodesLeft ≤ p.maxExprNodes ∧ x.combinations = p.maxExprNodes - e'.nodesLeft) ∧
      x.combinations ≤ p.maxExprNodes ∧ x.nesting ≤ p.maxExprDepth := by
  have hspent : e'.nodesLeft + x.combinations = p.maxExprNodes := levels_accounted _ p.maxExprDepth .whole ty hrun
  have hdrawn : DrawnIn p e p.maxExprDepth ty x := ((generate_drawn ty).of_run (.refl e) hrun).1
  exact ⟨⟨by omega, by omega⟩, by omega, hdrawn.nesting_le⟩

/-- A float, generated in the state that a run of the default profile begins in. -/
theorem node_budget_exact_float :
    let p : Profile := {}
    let e := Engine.start p (⟨Repeating.mk 0, fun _ => 1⟩ : Supply Repeating)
    ∃ x e', (generate p .float).run e = .ok (x, e') ∧
      (e'.nodesLeft ≤ p.maxExprNodes ∧ x.combinations = p.maxExprNodes - e'.nodesLeft) ∧
      x.combinations ≤ p.maxExprNodes ∧ x.nesting ≤ p.maxExprDepth := by
  intro p e
  have hbound : p.dimensionBound + 5 * (p.maxExprDepth + 1) < 0x8000000000000000 := by decide
  have hkeeps : Keeps .all e (generate p .float) _ :=
    generate_keeps (Engine.start_valid p e.supply) (Nat.le_refl _) hbound trivial
  obtain ⟨x, e', hrun, -⟩ := (hkeeps e (.refl e)).exists_run Repeating.zero_steady
  exact ⟨x, e', hrun, node_budget_exact hrun⟩

end Expr

end TensorFuzz
