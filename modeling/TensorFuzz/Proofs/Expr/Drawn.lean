import TensorFuzz.Expr.Generate
import TensorFuzz.Proofs.Engine.Run
import TensorFuzz.Proofs.Expr.Operations

/-!
# Drawn expressions

`Expr.Drawn` says which trees the generator can draw for a type where a number of levels of depth is left: one rule
for each form of expression, with the declarations that it refers to and the types that its parts are drawn for. It
holds whatever is drawn, from any state and for any profile, also where sizes do not fit the words that hold them.
Generating an expression declares nothing.
-/

namespace TensorFuzz

namespace Expr

/-! ## Operands -/

/-- A source is longer than what is sliced from it by up to five entries. -/
def Enlarges (length n : Nat) : Prop := ∃ extra, extra ≤ 5 ∧ n = length + extra

/-- How slices are reckoned: which constants bound one of a length from a start on. -/
structure Reckoning where
  spans : Int → Nat → ConstExpr → ConstExpr → Prop

/-- Bounds for a length as a signed word holds it. -/
def Reckoning.words : Reckoning where
  spans start length lo hi := lo.Denotes .sum start ∧ hi.Denotes .sum (start + signed64 length - 1)

/-- The starts of slices. -/
def NearZero (start : Int) : Prop := -5 ≤ start ∧ start ≤ 5

/-- The vectors that a slice of a type is taken of, with the bounds of the slice. A number is a slice of one entry. -/
inductive SliceSource (p : Profile) (r : Reckoning) : Ty → Ty → ConstExpr → ConstExpr → Prop
  | number {kind : Kind} {n : Nat} {start : Int} {lo hi : ConstExpr} : 1 ≤ n → n ≤ p.dimensionBound → Fits64 start →
      r.spans start 1 lo hi → SliceSource p r (.vector kind n) (.ofKind kind) lo hi
  | vector {kind : Kind} {n length : Nat} {start : Int} {lo hi : ConstExpr} : 1 ≤ n → Enlarges length n →
      NearZero start → r.spans start length lo hi → SliceSource p r (.vector kind n) (.vector kind length) lo hi

/-- The matrices that a window of a type is taken of, with the bounds of its rows and those of its columns. -/
inductive WindowSource (p : Profile) (r : Reckoning) :
    Ty → Ty → ConstExpr → ConstExpr → ConstExpr → ConstExpr → Prop
  | number {kind : Kind} {m n : Nat} {row col : Int} {rowLo rowHi colLo colHi : ConstExpr} : 1 ≤ m →
      m ≤ p.dimensionBound → 1 ≤ n → n ≤ p.dimensionBound → Fits64 row → Fits64 col → r.spans row 1 rowLo rowHi →
      r.spans col 1 colLo colHi → WindowSource p r (.matrix kind m n) (.ofKind kind) rowLo rowHi colLo colHi
  | row {kind : Kind} {m n length : Nat} {row col : Int} {rowLo rowHi colLo colHi : ConstExpr} : 1 ≤ m →
      m ≤ p.dimensionBound → 1 ≤ n → Enlarges length n → NearZero row → NearZero col → r.spans row 1 rowLo rowHi →
      r.spans col length colLo colHi →
      WindowSource p r (.matrix kind m n) (.vector kind length) rowLo rowHi colLo colHi
  | window {kind : Kind} {m n rows cols : Nat} {row col : Int} {rowLo rowHi colLo colHi : ConstExpr} : 1 ≤ m →
      Enlarges rows m → 1 ≤ n → Enlarges cols n → NearZero row → NearZero col → r.spans row rows rowLo rowHi →
      r.spans col cols colLo colHi →
      WindowSource p r (.matrix kind m n) (.matrix kind rows cols) rowLo rowHi colLo colHi

/-- The types that the operands of an operator are drawn for. -/
inductive Operands (p : Profile) : BinaryOp → Ty → Ty → Ty → Prop
  | connective {op : BinaryOp} : op = .and ∨ op = .or → Operands p op .bool .bool .bool
  | comparison {op : BinaryOp} (kind : Kind) : op ∈ comparisons → Operands p op (.ofKind kind) (.ofKind kind) .bool
  | same {op : BinaryOp} {ty : Ty} : op ∈ [.add, .subtract, .multiply, .divide, .power] → Operands p op ty ty ty
  | elementLeft {op : BinaryOp} {ty : Ty} : op ∈ [.add, .multiply] → Operands p op ty.elementTy ty ty
  | elementRight {op : BinaryOp} {ty : Ty} : op ∈ [.add, .multiply, .power] → Operands p op ty ty.elementTy ty
  | dot {kind : Kind} {n : Nat} : 1 ≤ n → n ≤ p.dimensionBound →
      Operands p .dot (.vector kind n) (.vector kind n) (.ofKind kind)
  | matmul {l r ty : Ty} {shared : Nat} {vectorOnLeft : Bool} : 1 ≤ shared → shared ≤ p.dimensionBound →
      ty.productOperands shared vectorOnLeft = .ok (some (l, r)) → Operands p .matmul l r ty

/-! ## Trees -/

/-- The expression can be drawn for the type where the levels of depth are left. -/
inductive Drawn (p : Profile) (scope : Scope) (records : Registry) : Nat → Ty → Expr → Prop
  | nothing (d : Nat) : Drawn p scope records d .void .nothing
  | bool (d : Nat) (b : Bool) : Drawn p scope records d .bool (.bool b)
  | int (d n : Nat) : Drawn p scope records d .int (.int n)
  | float (d parts : Nat) : Drawn p scope records d .float (.float parts)
  | string {content : String} (d : Nat) : content ∈ strings → Drawn p scope records d .string (.string content)
  | vector {d : Nat} {kind : Kind} {items : List Expr} :
      (∀ x ∈ items, Drawn p scope records (d - 1) (.ofKind kind) x) →
      Drawn p scope records d (.vector kind items.length) (.list items)
  | matrix {d cols : Nat} {kind : Kind} {rows : List (List Expr)} :
      (∀ row ∈ rows, row.length = cols) →
      (∀ row ∈ rows, ∀ x ∈ row, Drawn p scope records (d - 1) (.ofKind kind) x) →
      Drawn p scope records d (.matrix kind rows.length cols) (.list (rows.map .list))
  | record {d : Nat} {id : String} {values : List Expr} :
      values.length = ((records.fields? id).getD []).length →
      (∀ part ∈ values.zip ((records.fields? id).getD []), Drawn p scope records (d - 1) part.2.ty part.1) →
      Drawn p scope records d (.record id) (.record id values)
  | name {d : Nat} {ty : Ty} {b : Binding} : b ∈ scope.ofTy records ty → b.isFunction = false →
      Drawn p scope records d ty (.name b.name)
  | call {d : Nat} {ty : Ty} {b : Binding} {args : List Expr} : b ∈ scope.ofTy records ty → b.isFunction = true →
      args.length = b.params.length → (∀ part ∈ args.zip b.params, Drawn p scope records d part.2 part.1) →
      Drawn p scope records (d + 1) ty (.call b.name args)
  | field {d : Nat} {ty : Ty} {b : Binding} {id : String} {found : Field} {source : Expr} :
      b ∈ scope.ofTy records ty → records.fieldOfTy? id ty = some found → Drawn p scope records d b.ty source →
      Drawn p scope records d ty (.field source found.name)
  | group {d : Nat} {ty : Ty} {x : Expr} : Drawn p scope records d ty x →
      Drawn p scope records (d + 1) ty (.group x)
  | entry {d n : Nat} {kind : Kind} {source index : Expr} : 1 ≤ n → n ≤ p.dimensionBound →
      Drawn p scope records d (.vector kind n) source → Drawn p scope records d .int index →
      Drawn p scope records (d + 1) (.ofKind kind) (.entry source index)
  | row {d n length : Nat} {kind : Kind} {source index : Expr} : 1 ≤ n → n ≤ p.dimensionBound →
      Drawn p scope records d (.matrix kind n length) source → Drawn p scope records d .int index →
      Drawn p scope records (d + 1) (.vector kind length) (.row source index)
  | slice {d : Nat} {source ty : Ty} {x step : Expr} {lo hi : ConstExpr} :
      SliceSource p .words source ty lo hi → Drawn p scope records d source x → Drawn p scope records d .int step →
      Drawn p scope records (d + 1) ty (.slice x lo step hi)
  | window {d : Nat} {source ty : Ty} {x rowStep colStep : Expr} {rowLo rowHi colLo colHi : ConstExpr} :
      WindowSource p .words source ty rowLo rowHi colLo colHi → Drawn p scope records d source x →
      Drawn p scope records d .int rowStep → Drawn p scope records d .int colStep →
      Drawn p scope records (d + 1) ty (.window x rowLo rowStep rowHi colLo colStep colHi)
  | query {d : Nat} {source : Ty} {x : Expr} {query : SizeQuery} : query.Fits source →
      source.Sized .empty p.dimensionBound → Drawn p scope records d source x →
      Drawn p scope records (d + 1) .int (.query x query)
  | binary {d : Nat} {op : BinaryOp} {l r ty : Ty} {x y : Expr} : Operands p op l r ty →
      Drawn p scope records d l x → Drawn p scope records d r y → Drawn p scope records (d + 1) ty (.binary op x y)
  | negate {d : Nat} {ty : Ty} {x : Expr} : ty.isNumber = true → Drawn p scope records d ty x →
      Drawn p scope records (d + 1) ty (.negate x)
  | not {d : Nat} {x : Expr} : Drawn p scope records d .bool x → Drawn p scope records (d + 1) .bool (.not x)
  | select {d : Nat} {ty : Ty} {c x y : Expr} : Drawn p scope records d .bool c → Drawn p scope records d ty x →
      Drawn p scope records d ty y → Drawn p scope records (d + 1) ty (.select c x y)

/-- The label, if there is one, is that of a field of the type. -/
def LabelsField (records : Registry) (ty : Ty) (label : Option String) : Prop :=
  ∀ l ∈ label, ∃ id found, records.fieldOfTy? id ty = some found ∧ found.name = l

/-- A use of a binding may be followed by a label, if the value has a field of the type. -/
theorem Drawn.labelled {p : Profile} {scope : Scope} {records : Registry} {d : Nat} {ty : Ty} {b : Binding} {x : Expr}
    (hb : b ∈ scope.ofTy records ty) (hx : ∀ ty, b ∈ scope.ofTy records ty → Drawn p scope records d ty x)
    {label : Option String} (hlabel : LabelsField records ty label) : Drawn p scope records d ty (x.labelled label) := by
  cases label with
  | none => exact hx ty hb
  | some label =>
    obtain ⟨id, found, hfound, rfl⟩ := hlabel label rfl
    have hself : b ∈ scope.ofTy records b.ty := List.mem_filter.mpr ⟨(List.mem_filter.mp hb).1, by simp⟩
    exact .field hb hfound (hx b.ty hself)

end Expr

/-! ## Computations that may end in a fault -/

namespace Gen.Keeps

variable {σ : Type} {α β : Type} [RandomSource σ] {e₀ : Engine σ} {P : α → Prop} {Q : β → Prop}

/-- Whatever is drawn, nothing is declared. -/
theorem anyDraw (act : Draw σ α) : Keeps .none e₀ (Gen.draw act) fun _ => True := fun e he => by
  cases hrun : act e.supply with
  | error fault =>
    simp only [Gen.draw, Gives, hrun]
    exact False.elim
  | ok result =>
    have hsupply : e₀.Agrees { e with supply := result.2 } := ⟨he.scope, he.records, he.stmtDepth⟩
    simp only [Gen.draw, Gives, hrun]
    exact ⟨hsupply, False.elim, trivial, hsupply⟩

theorem fallible {result : Except Fault α} {f : α → Gen σ β} (hf : ∀ a, result = .ok a → Keeps .none e₀ (f a) Q) :
    Keeps .none e₀ (Gen.orFault result >>= f) Q := by
  cases result with
  | error fault => exact fun _ _ => False.elim
  | ok a => exact hf a rfl

end Gen.Keeps

namespace Expr

open Gen

variable {σ : Type} [RandomSource σ] {e₀ : Engine σ} {p : Profile} {hasDepth : Bool} {deeper : Levels σ} {ty : Ty}
  {left deep : Nat}

/-- The trees that can be drawn with the declarations of the state. -/
abbrev DrawnIn (p : Profile) (e₀ : Engine σ) (d : Nat) (ty : Ty) (x : Expr) : Prop :=
  x.Drawn p e₀.scope e₀.records d ty

/-! ## Literals -/

/-- Lists that are drawn one after another are the rows of a matrix. -/
theorem exists_rows {lists : List Expr} {P : List Expr → Prop} (h : ∀ x ∈ lists, ∃ row, x = .list row ∧ P row) :
    ∃ rows : List (List Expr), lists = rows.map .list ∧ ∀ row ∈ rows, P row := by
  induction lists with
  | nil => exact ⟨[], rfl, by simp⟩
  | cons x lists ih =>
    obtain ⟨row, rfl, hrow⟩ := h x List.mem_cons_self
    obtain ⟨rows, rfl, hrows⟩ := ih fun y hy => h y (List.mem_cons_of_mem _ hy)
    exact ⟨row :: rows, rfl, List.forall_mem_cons.mpr ⟨hrow, hrows⟩⟩

section
variable {inner : Ty → Gen σ Expr} (h : ∀ ty, Keeps .none e₀ (inner ty) (DrawnIn p e₀ (left - 1) ty))
include h

theorem entryLiteral_drawn (kind : Kind) :
    Keeps .none e₀ (entryLiteral inner kind) (DrawnIn p e₀ (left - 1) (.ofKind kind)) := by
  cases kind with
  | int => exact (Keeps.anyDraw _).bind fun n _ => .pure (.int _ n)
  | float =>
    refine (Keeps.chance _).bind fun _ _ => .ite (fun _ => ?_) fun _ => h .float
    exact (Keeps.anyDraw _).bind fun parts _ => .pure (.float _ parts)

theorem drawLiteral_drawn (ty : Ty) : Keeps .none e₀ (drawLiteral inner ty) (DrawnIn p e₀ left ty) := by
  have hentries (kind : Kind) (n : Nat) := (entryLiteral_drawn h kind).times n
  cases ty with
  | bool => exact Keeps.coin.bind fun b _ => .pure (.bool _ b)
  | int => exact (Keeps.anyDraw _).bind fun n _ => .pure (.int _ n)
  | float => exact (Keeps.anyDraw _).bind fun parts _ => .pure (.float _ parts)
  | string =>
    refine (Keeps.pick? strings).bind fun found hfound => .pure (.string _ ?_)
    cases found with
    | none => exact absurd (hfound.1.mp rfl) (by decide)
    | some content => exact hfound.2 content rfl
  | void => exact .pure (.nothing _)
  | vector kind length =>
    refine (hentries kind length).bind fun items ⟨hlength, hitems⟩ => .pure ?_
    subst hlength
    exact .vector hitems
  | matrix kind rows cols =>
    have hrow : Keeps .none e₀ (vectorLiteral inner kind cols) fun x => ∃ items : List Expr, x = .list items ∧
        items.length = cols ∧ ∀ x ∈ items, DrawnIn p e₀ (left - 1) (.ofKind kind) x :=
      (hentries kind cols).bind fun items hitems => .pure ⟨items, rfl, hitems⟩
    refine (hrow.times rows).bind fun lists ⟨hlength, hlists⟩ => .pure ?_
    obtain ⟨rows, rfl, hrows⟩ := exists_rows hlists
    obtain rfl : rows.length = _ := by simpa using hlength
    exact .matrix (fun row hrow => (hrows row hrow).1) fun row hrow => (hrows row hrow).2
  | record id =>
    refine Keeps.look fun e he => ?_
    rw [he.records]
    exact (Keeps.mapM fun field _ => h field.ty).bind fun values hvalues => .pure (.record hvalues.1 hvalues.2)

end

theorem closedLiteral_drawn (room : Nat) (ty : Ty) :
    Keeps .none e₀ (closedLiteral room ty) (DrawnIn p e₀ 0 ty) := by
  induction room generalizing ty with
  | zero => exact fun _ _ => False.elim
  | succ room ih => exact drawLiteral_drawn ih ty

/-! ## Combinations -/

/-- Operands are combined only where there is depth. The spent node is all that changes. -/
theorem combine_keeps {safe : Faults} (chance : Probability) :
    Keeps safe e₀ (combine hasDepth chance : Gen σ Bool) fun combines => combines = true → hasDepth = true := by
  rw [combine]
  refine Keeps.look fun e _ => .ite (fun _ => .pure nofun) fun hleft => ?_
  have hdepth : hasDepth = true := by
    cases hasDepth with
    | false => exact absurd rfl hleft
    | true => rfl
  refine (Keeps.chance _).bind fun b _ => .ite (fun _ => ?_) fun _ => .pure nofun
  have hspend : Keeps safe e₀ (modify fun e => { e with nodesLeft := e.nodesLeft - 1 } : Gen σ Unit) fun _ => True :=
    .update (fun _ => ⟨rfl, rfl, rfl⟩) (fun _ => rfl) trivial
  exact hspend.bind fun _ _ => .pure fun _ => hdepth

/-- A call has the name asked for and an argument for each parameter. -/
theorem drawCall_keeps {safe : Faults} {P : Ty → Expr → Prop} {params : List Ty}
    (h : ∀ param ∈ params, Keeps safe e₀ (deeper .whole param) (P param)) (function : String) :
    Keeps safe e₀ (drawCall deeper function params) fun x => ∃ args, x = .call function args ∧
      args.length = params.length ∧ ∀ part ∈ args.zip params, P part.2 part.1 :=
  (Keeps.mapM h).bind fun args hargs => .pure ⟨args, rfl, hargs⟩

section
variable {P : Expr → Prop} {chance : Probability} {act next : Gen σ Expr}

theorem combine_drawn (hact : hasDepth = true → Keeps .none e₀ act P) (hnext : Keeps .none e₀ next P) :
    Keeps .none e₀ (do if ← combine hasDepth chance then act else next) P :=
  (combine_keeps chance).bind fun _ hdepth => .ite (fun hcombines => hact (hdepth hcombines)) fun _ => hnext

/-- What a level combines for some types only. -/
theorem combine_if_drawn {c : Prop} [Decidable c] (hact : c → hasDepth = true → Keeps .none e₀ act P)
    (hnext : Keeps .none e₀ next P) :
    Keeps .none e₀ (if c then (do if ← combine hasDepth chance then act else next) else next) P :=
  .ite (fun hc => combine_drawn (hact hc) hnext) fun _ => hnext

end

/-! ## Sizes around slices -/

/-- A word holds the size of every source where it holds the largest. -/
theorem sourceSize_keeps {safe : Faults} {length : Nat} (hroom : safe .addOverflow → length + 5 < limit64) :
    Keeps safe e₀ (sourceSize length : Gen σ Nat) (Enlarges length) := by
  refine (Keeps.draw (Draw.sizeIn_yields 0 5)).bind fun extra hextra => .ite (fun _ => ?_) fun hfull => ?_
  · exact .pure ⟨extra, by omega, rfl⟩
  · exact fun _ _ hsafe => absurd (hroom hsafe) (by omega)

theorem offset_keeps {safe : Faults} : Keeps safe e₀ (Gen.draw (Draw.intIn (-5) 5) : Gen σ Int) NearZero :=
  (Keeps.draw (Draw.intIn_yields (by decide) (by decide))).mono fun _ hn => hn.2 (by decide)

theorem constant_keeps {safe : Faults} {v : Int} (hv : Fits64 v) :
    Keeps safe e₀ (Gen.constant p v : Gen σ ConstExpr) (·.Denotes .sum v) :=
  .draw (Constant.synthesize_yields p.maxConstDepth hv)

theorem NearZero.fits {start : Int} (h : NearZero start) : Fits64 start := by
  unfold NearZero at h
  unfold Fits64
  omega

theorem lastIndex_eq_ok_iff {start last : Int} {length : Nat} : lastIndex start length = .ok last ↔
    Fits64 (start + signed64 length) ∧ Fits64 last ∧ last = start + signed64 length - 1 := by
  unfold lastIndex
  dsimp only
  split
  · next h => simp [h]
  · next h =>
    split
    · next h' =>
      refine ⟨nofun, fun ⟨_, hlast, heq⟩ => absurd (heq ▸ hlast) h'⟩
    · next h' =>
      rw [Except.ok.injEq]
      exact ⟨fun heq => ⟨Decidable.not_not.mp h, heq ▸ Decidable.not_not.mp h', heq.symm⟩, fun ⟨_, _, heq⟩ => heq.symm⟩

/-- The last index of a slice that starts near zero. -/
theorem lastIndex_eq {start : Int} {length : Nat} (hstart : NearZero start)
    (hlength : length + 5 < 0x8000000000000000) : lastIndex start length = .ok (start + length - 1) := by
  unfold NearZero at hstart
  have hfits : Fits64 length := by unfold Fits64; omega
  rw [lastIndex_eq_ok_iff, signed64_of_fits hfits]
  unfold Fits64
  omega

/-- The bounds of a slice of one entry are the same. -/
theorem spans_one {start : Int} {lo hi : ConstExpr} (hlo : lo.Denotes .sum start) (hhi : hi.Denotes .sum start) :
    Reckoning.words.spans start 1 lo hi := by
  have hlast : start + signed64 (1 : Nat) - 1 = start := by
    have hone : signed64 (1 : Nat) = 1 := by decide
    omega
  exact ⟨hlo, by rwa [hlast]⟩

/-- A level draws its literals and its operands by levels with less depth left. -/
structure Deepens (p : Profile) (e₀ : Engine σ) (hasDepth : Bool) (deeper : Levels σ) (left deep : Nat) : Prop where
  depth : hasDepth = true → left = deep + 1
  literal : left - 1 = deep
  deeper : ∀ level ty, Keeps .none e₀ (deeper level ty) (DrawnIn p e₀ deep ty)

namespace Deepens

variable (h : Deepens p e₀ hasDepth deeper left deep)
include h

/-- What is combined of operands is drawn with a level of depth more than these. -/
theorem combined {act next : Gen σ Expr} {chance : Probability}
    (hact : Keeps .none e₀ act (DrawnIn p e₀ (deep + 1) ty)) (hnext : Keeps .none e₀ next (DrawnIn p e₀ left ty)) :
    Keeps .none e₀ (do if ← combine hasDepth chance then act else next) (DrawnIn p e₀ left ty) :=
  combine_drawn (fun hdepth => h.depth hdepth ▸ hact) hnext

theorem combined_if {c : Prop} [Decidable c] {act next : Gen σ Expr} {chance : Probability}
    (hact : c → Keeps .none e₀ act (DrawnIn p e₀ (deep + 1) ty)) (hnext : Keeps .none e₀ next (DrawnIn p e₀ left ty)) :
    Keeps .none e₀ (if c then (do if ← combine hasDepth chance then act else next) else next)
      (DrawnIn p e₀ left ty) :=
  combine_if_drawn (fun hc hdepth => h.depth hdepth ▸ hact hc) hnext

/-! ## Atoms -/

theorem use {b : Binding} (hb : b ∈ e₀.scope.ofTy e₀.records ty) {label : Option String}
    (hlabel : LabelsField e₀.records ty label) (chance : Probability) :
    Keeps .none e₀
      (if b.isFunction then do
          if ← combine hasDepth chance then
            return some ((← drawCall deeper b.name b.params).labelled label)
          return none
        else return some ((Expr.name b.name).labelled label))
      fun found => ∀ x ∈ found, DrawnIn p e₀ left ty x := by
  refine .ite (fun hfunction => ?_) fun hvalue => .pure ?_
  · refine (combine_keeps chance).bind fun _ hdepth => .ite (fun hcombines => ?_) fun _ => .pure (by simp)
    refine (drawCall_keeps (fun param _ => h.deeper .whole param) b.name).bind fun x hx => .pure ?_
    obtain ⟨args, rfl, hlength, hargs⟩ := hx
    rintro _ ⟨⟩
    rw [h.depth (hdepth hcombines)]
    exact Drawn.labelled hb (fun _ hb => .call hb hfunction hlength hargs) hlabel
  · rintro _ ⟨⟩
    exact Drawn.labelled hb (fun _ hb => .name hb (by simpa using hvalue)) hlabel

theorem reference : Keeps .none e₀ (drawReference hasDepth deeper ty) fun found =>
    ∀ x ∈ found, DrawnIn p e₀ left ty x := by
  refine Keeps.look fun e he => (Keeps.pick? _).bind fun found hfound => ?_
  cases found with
  | none => exact .pure (by simp)
  | some b =>
    have hb := hfound.2 b rfl
    rw [he.scope, he.records] at hb
    show Keeps .none e₀ (drawUse hasDepth deeper b ty) _
    unfold drawUse
    split
    · refine Keeps.look fun e he => ?_
      split
      · exact .pure (by simp)
      · next field hfield =>
        rw [he.records] at hfield
        have hlabel : LabelsField e₀.records ty (some field.name) := by
          rintro _ ⟨⟩
          exact ⟨_, field, hfield, rfl⟩
        exact h.use hb hlabel .certain
    · have hlabel : LabelsField e₀.records ty none := nofun
      exact h.use hb hlabel (.ratio 4 10)

theorem literalOf : Keeps .none e₀ (drawLiteral (deeper .whole) ty) (DrawnIn p e₀ left ty) :=
  drawLiteral_drawn (fun ty => h.literal ▸ h.deeper .whole ty) ty

theorem atom : Keeps .none e₀ (drawAtom hasDepth deeper ty) (DrawnIn p e₀ left ty) := by
  refine h.combined ((h.deeper .whole ty).bind fun x hx => .pure (.group hx)) ?_
  refine Keeps.coin.bind fun _ _ => .ite (fun _ => h.reference.bind fun found hfound => ?_) fun _ => h.literalOf
  cases found with
  | none => exact h.literalOf
  | some x => exact .pure (hfound x rfl)

/-! ## Vectors and matrices -/

theorem element : Keeps .none e₀ (drawElement p hasDepth deeper ty) (DrawnIn p e₀ left ty) := by
  have hentry (kind : Kind) : Keeps .none e₀
      (do
        let source ← Gen.orFault ((Ty.ofKind kind).asVector (← Gen.dimension p))
        let source ← deeper .atom source
        return .entry source (← deeper .whole .int))
      (DrawnIn p e₀ (deep + 1) (.ofKind kind)) := by
    refine (Keeps.dimension p).bind fun n hn => ?_
    rw [Ty.asVector_ofKind hn.1]
    exact (h.deeper .atom (.vector kind n)).bind fun x hx => (h.deeper .whole .int).bind fun i hi =>
      .pure (.entry hn.1 hn.2 hx hi)
  unfold drawElement
  cases ty with
  | int => exact h.combined (hentry .int) h.atom
  | float => exact h.combined (hentry .float) h.atom
  | vector kind length =>
    refine h.combined_if (fun hlength => ?_) h.atom
    refine (Keeps.dimension p).bind fun n hn => .orFault (Ty.matrixOf_ok hn.1 (Nat.le_of_lt hlength)) ?_
    exact (h.deeper .atom (.matrix kind n length)).bind fun x hx => (h.deeper .whole .int).bind fun i hi =>
      .pure (.row hn.1 hn.2 hx hi)
  | _ => exact h.atom

theorem sliceOf {source : Ty} {x : Expr} {first last : Int} (hfirst : Fits64 first) (hlast : Fits64 last)
    (hsource : ∀ lo hi : ConstExpr, lo.Denotes .sum first → hi.Denotes .sum last → SliceSource p .words source ty lo hi)
    (hx : DrawnIn p e₀ deep source x) :
    Keeps .none e₀ (drawSliceOf p deeper x first last) (DrawnIn p e₀ (deep + 1) ty) := by
  refine (constant_keeps hfirst).bind fun lo hlo => (h.deeper .whole .int).bind fun _ hstep => ?_
  exact (constant_keeps hlast).bind fun hi hhi => .pure (.slice (hsource lo hi hlo hhi) hx hstep)

theorem windowOf {source : Ty} {x : Expr} {row lastRow col lastCol : Int} (hrow : Fits64 row)
    (hlastRow : Fits64 lastRow) (hcol : Fits64 col) (hlastCol : Fits64 lastCol)
    (hsource : ∀ a b c d : ConstExpr, a.Denotes .sum row → b.Denotes .sum lastRow → c.Denotes .sum col →
      d.Denotes .sum lastCol → WindowSource p .words source ty a b c d)
    (hx : DrawnIn p e₀ deep source x) :
    Keeps .none e₀ (drawWindowOf p deeper x row lastRow col lastCol) (DrawnIn p e₀ (deep + 1) ty) := by
  refine (constant_keeps hrow).bind fun a ha => (h.deeper .whole .int).bind fun _ hrowStep => ?_
  refine (constant_keeps hlastRow).bind fun b hb => (constant_keeps hcol).bind fun c hc => ?_
  refine (h.deeper .whole .int).bind fun _ hcolStep => (constant_keeps hlastCol).bind fun d hd => ?_
  exact .pure (.window (hsource a b c d ha hb hc hd) hx hrowStep hcolStep)

theorem numberSlice (kind : Kind) :
    Keeps .none e₀ (drawNumberSlice p deeper (.ofKind kind)) (DrawnIn p e₀ (deep + 1) (.ofKind kind)) := by
  refine (Keeps.chance _).bind fun _ _ => .ite (fun _ => ?_) fun _ => ?_
  · refine (Keeps.dimension p).bind fun n hn => (Keeps.draw (Draw.centeredOffset_yields n)).bind fun offset hoffset => ?_
    refine .orFault (Ty.asVector_ofKind hn.1) ((h.deeper .element (.vector kind n)).bind fun x hx => ?_)
    exact h.sliceOf hoffset hoffset (fun _ _ hlo hhi => .number hn.1 hn.2 hoffset (spans_one hlo hhi)) hx
  · refine (Keeps.dimension p).bind fun m hm => (Keeps.dimension p).bind fun n hn => ?_
    refine (Keeps.draw (Draw.centeredOffset_yields m)).bind fun row hrow => ?_
    refine (Keeps.draw (Draw.centeredOffset_yields n)).bind fun col hcol => ?_
    refine .orFault (Ty.asMatrix_ofKind hm.1 hn.1) ((h.deeper .element (.matrix kind m n)).bind fun x hx => ?_)
    exact h.windowOf hrow hrow hcol hcol (fun _ _ _ _ ha hb hc hd =>
      .number hm.1 hm.2 hn.1 hn.2 hrow hcol (spans_one ha hb) (spans_one hc hd)) hx

theorem vectorSlice (kind : Kind) (length : Nat) :
    Keeps .none e₀ (drawVectorSlice p deeper kind length) (DrawnIn p e₀ (deep + 1) (.vector kind length)) := by
  refine offset_keeps.bind fun start hstart => Keeps.fallible fun last hlast => ?_
  obtain ⟨-, hfits, rfl⟩ := lastIndex_eq_ok_iff.mp hlast
  refine (Keeps.chance _).bind fun _ _ => .ite (fun _ => ?_) fun _ => ?_
  · refine (sourceSize_keeps False.elim).bind fun n hn => Keeps.fallible fun source hsource => ?_
    obtain ⟨hpos, rfl⟩ := Ty.vectorOf_eq_ok_iff.mp hsource
    exact (h.deeper .element (.vector kind n)).bind fun x hx =>
      h.sliceOf hstart.fits hfits (fun _ _ hlo hhi => .vector (by omega) hn hstart ⟨hlo, hhi⟩) hx
  · refine offset_keeps.bind fun row hrow => (Keeps.dimension p).bind fun m hm => ?_
    refine (sourceSize_keeps False.elim).bind fun n hn => Keeps.fallible fun source hsource => ?_
    obtain ⟨hpos, rfl⟩ := Ty.matrixOf_eq_ok_iff.mp hsource
    exact (h.deeper .element (.matrix kind m n)).bind fun x hx =>
      h.windowOf hrow.fits hrow.fits hstart.fits hfits (fun _ _ _ _ ha hb hc hd =>
        .row hm.1 hm.2 (by omega) hn hrow hstart (spans_one ha hb) ⟨hc, hd⟩) hx

theorem matrixSlice (kind : Kind) (rows cols : Nat) :
    Keeps .none e₀ (drawMatrixSlice p deeper kind rows cols) (DrawnIn p e₀ (deep + 1) (.matrix kind rows cols)) := by
  refine offset_keeps.bind fun row hrow => Keeps.fallible fun lastRow hlastRow => ?_
  refine offset_keeps.bind fun col hcol => Keeps.fallible fun lastCol hlastCol => ?_
  obtain ⟨-, hrowFits, rfl⟩ := lastIndex_eq_ok_iff.mp hlastRow
  obtain ⟨-, hcolFits, rfl⟩ := lastIndex_eq_ok_iff.mp hlastCol
  refine (sourceSize_keeps False.elim).bind fun m hm => (sourceSize_keeps False.elim).bind fun n hn => ?_
  refine Keeps.fallible fun source hsource => ?_
  obtain ⟨hpos, rfl⟩ := Ty.matrixOf_eq_ok_iff.mp hsource
  exact (h.deeper .element (.matrix kind m n)).bind fun x hx =>
    h.windowOf hrow.fits hrowFits hcol.fits hcolFits (fun _ _ _ _ ha hb hc hd =>
      .window (by omega) hm (by omega) hn hrow hcol ⟨ha, hb⟩ ⟨hc, hd⟩) hx

theorem slice : Keeps .none e₀ (drawSlice p hasDepth deeper ty) (DrawnIn p e₀ left ty) := by
  unfold drawSlice
  cases ty with
  | int => exact h.combined (h.numberSlice .int) h.element
  | float => exact h.combined (h.numberSlice .float) h.element
  | vector kind length => exact h.combined_if (fun _ => h.vectorSlice kind length) h.element
  | matrix kind rows cols => exact h.combined_if (fun _ => h.matrixSlice kind rows cols) h.element
  | _ => exact h.element

/-- The operands of an operator, each at its level. -/
theorem binary {op : BinaryOp} {l r : Ty} (hop : Operands p op l r ty) (leftLevel rightLevel : Level) :
    Keeps .none e₀ (do
        let x ← deeper leftLevel l
        return .binary op x (← deeper rightLevel r))
      (DrawnIn p e₀ (deep + 1) ty) :=
  (h.deeper leftLevel l).bind fun _ hx => (h.deeper rightLevel r).bind fun _ hy => .pure (.binary hop hx hy)

theorem matmul : Keeps .none e₀ (drawMatmul p hasDepth deeper ty) (DrawnIn p e₀ left ty) := by
  refine (Keeps.dimension p).bind fun shared hshared => Keeps.coin.bind fun vectorOnLeft _ => ?_
  refine Keeps.fallible fun operands hoperands => ?_
  match operands with
  | none => exact h.slice
  | some (l, r) => exact h.combined (h.binary (.matmul hshared.1 hshared.2 hoperands) _ _) h.slice

theorem dot : Keeps .none e₀ (drawDot p hasDepth deeper ty) (DrawnIn p e₀ left ty) := by
  refine h.combined_if (fun hnumber => ?_) h.matmul
  obtain ⟨kind, rfl⟩ := Ty.exists_kind hnumber
  refine (Keeps.dimension p).bind fun n hn => .orFault (Ty.asVector_ofKind hn.1) ?_
  exact h.binary (.dot hn.1 hn.2) _ _

theorem query : Keeps .none e₀ (drawQuery p hasDepth deeper ty) (DrawnIn p e₀ left ty) := by
  refine h.combined_if (fun hint => ?_) h.dot
  obtain rfl : ty = .int := by cases ty <;> first | rfl | cases hint
  refine Keeps.kind.bind fun kind _ => (Keeps.dimension p).bind fun m hm => (Keeps.dimension p).bind fun n hn => ?_
  refine Keeps.coin.bind fun _ _ => .ite (fun _ => .orFault (Ty.vectorOf_ok hm.1) ?_) fun _ => ?_
  · have hsized : (Ty.vector kind m).Sized .empty p.dimensionBound := hm
    have hfits : SizeQuery.dimension.Fits (.vector kind m) := rfl
    exact (h.deeper .dot (.vector kind m)).bind fun x hx => .pure (.query hfits hsized hx)
  · refine Keeps.coin.bind fun byRows _ => .orFault (Ty.matrixOf_ok hm.1 hn.1) ?_
    have hsized : (Ty.matrix kind m n).Sized .empty p.dimensionBound := ⟨hm, hn⟩
    have hfits : (if byRows then SizeQuery.rows else .cols).Fits (.matrix kind m n) := by cases byRows <;> rfl
    exact (h.deeper .dot (.matrix kind m n)).bind fun x hx => .pure (.query hfits hsized hx)

/-! ## Arithmetic -/

theorem power : Keeps .none e₀ (drawPower p hasDepth deeper ty) (DrawnIn p e₀ left ty) :=
  h.combined_if (fun _ => h.binary (.same (by decide)) _ _)
    (h.combined_if (fun _ => h.binary (.elementRight (by decide)) _ _) h.query)

theorem negate : Keeps .none e₀ (drawNegate p hasDepth deeper ty) (DrawnIn p e₀ left ty) :=
  h.combined_if (fun hnumber => (h.deeper _ ty).bind fun _ hx => .pure (.negate hnumber hx)) h.power

theorem product : Keeps .none e₀ (drawProduct hasDepth deeper ty) (DrawnIn p e₀ left ty) := by
  refine h.combined_if (fun _ => .ite (fun _ => ?_) fun _ => h.binary (.same (by decide)) _ _)
    (h.combined_if (fun _ => Keeps.coin.bind fun _ _ => .ite (fun _ => ?_) fun _ => ?_) h.atom)
  · refine Keeps.bind (P := (· ∈ [.divide, .multiply])) (Keeps.coin.bind fun divides _ => .pure ?_) fun op hop => ?_
    · cases divides <;> decide
    · exact h.binary (.same (by revert op; decide)) _ _
  · exact h.binary (.elementLeft (by decide)) _ _
  · exact h.binary (.elementRight (by decide)) _ _

theorem sum : Keeps .none e₀ (drawSum hasDepth deeper ty) (DrawnIn p e₀ left ty) := by
  refine h.combined_if (fun _ => Keeps.coin.bind fun isSum _ => ?_)
    (h.combined_if (fun _ => Keeps.coin.bind fun _ _ => .ite (fun _ => ?_) fun _ => ?_) h.atom)
  · exact h.binary (.same (by cases isSum <;> decide)) _ _
  · exact h.binary (.elementLeft (by decide)) _ _
  · exact h.binary (.elementRight (by decide)) _ _

/-! ## Truth values -/

theorem compare : Keeps .none e₀ (drawCompare hasDepth deeper ty) (DrawnIn p e₀ left ty) := by
  refine h.combined_if (fun hbool => Keeps.kind.bind fun kind _ => (Keeps.pick? _).bind fun found hfound => ?_) h.sum
  obtain rfl := Ty.eq_bool hbool
  refine h.binary (.comparison kind ?_) _ _
  cases found with
  | none => decide
  | some op => exact hfound.2 op rfl

theorem not : Keeps .none e₀ (drawNot hasDepth deeper ty) (DrawnIn p e₀ left ty) := by
  refine h.combined_if (fun hbool => ?_) h.compare
  obtain rfl := Ty.eq_bool hbool
  exact (h.deeper _ .bool).bind fun _ hx => .pure (.not hx)

theorem and : Keeps .none e₀ (drawAnd hasDepth deeper ty) (DrawnIn p e₀ left ty) := by
  refine h.combined_if (fun hbool => ?_) h.not
  obtain rfl := Ty.eq_bool hbool
  exact h.binary (.connective (.inl rfl)) _ _

theorem or : Keeps .none e₀ (drawOr hasDepth deeper ty) (DrawnIn p e₀ left ty) := by
  refine h.combined_if (fun hbool => ?_) h.and
  obtain rfl := Ty.eq_bool hbool
  exact h.binary (.connective (.inr rfl)) _ _

theorem select : Keeps .none e₀ (drawSelect hasDepth deeper ty) (DrawnIn p e₀ left ty) :=
  h.combined ((h.deeper _ .bool).bind fun _ hc => (h.deeper _ ty).bind fun _ hx => (h.deeper _ ty).bind fun _ hy =>
    .pure (.select hc hx hy)) h.or

theorem whole : Keeps .none e₀ (drawWhole hasDepth deeper ty) (DrawnIn p e₀ left ty) :=
  Keeps.look fun _ _ => .ite (fun _ => h.literalOf) fun _ => h.select

theorem level (level : Level) : Keeps .none e₀ (grammar p hasDepth deeper level ty) (DrawnIn p e₀ left ty) := by
  cases level with
  | whole => exact h.whole
  | select => exact h.select
  | or => exact h.or
  | and => exact h.and
  | not => exact h.not
  | compare => exact h.compare
  | sum => exact h.sum
  | product => exact h.product
  | negate => exact h.negate
  | power => exact h.power
  | query => exact h.query
  | dot => exact h.dot
  | matmul => exact h.matmul
  | slice => exact h.slice
  | element => exact h.element
  | atom => exact h.atom

end Deepens

/-! ## The levels tied together -/

theorem levels_drawn (room d : Nat) (level : Level) (ty : Ty) :
    Keeps .none e₀ (levels p room d level ty) (DrawnIn p e₀ d ty) := by
  induction d generalizing level ty with
  | zero =>
    have hclosed : Deepens p e₀ false (closed room) 0 0 := ⟨nofun, rfl, fun _ => closedLiteral_drawn room⟩
    exact hclosed.level level
  | succ d ih =>
    have hdeeper : Deepens p e₀ true (levels p room d) (d + 1) d := ⟨fun _ => rfl, rfl, ih⟩
    exact hdeeper.level level

theorem deeperThan_drawn (room d : Nat) (level : Level) (ty : Ty) :
    Keeps .none e₀ (deeperThan p room d level ty) (DrawnIn p e₀ (d - 1) ty) := by
  cases d with
  | zero => exact closedLiteral_drawn room ty
  | succ d => exact levels_drawn room d level ty

theorem refill_keeps {safe : Faults} : Keeps safe e₀ (refill p : Gen σ Unit) fun _ => True :=
  .update (fun _ => ⟨rfl, rfl, rfl⟩) (fun _ => rfl) trivial

/-! ## Expressions at a nesting depth -/

theorem atDepth_drawn (depth : Nat) (level : Level) (ty : Ty) :
    Keeps .none e₀ (atDepth p depth level ty) (DrawnIn p e₀ (p.maxExprDepth - depth) ty) := levels_drawn _ _ level ty

theorem generate_drawn (ty : Ty) : Keeps .none e₀ (generate p ty) (DrawnIn p e₀ p.maxExprDepth ty) :=
  refill_keeps.bind fun _ _ => levels_drawn _ _ .whole ty

theorem operand_drawn (ty : Ty) (depth : Nat) :
    Keeps .none e₀ (operand p ty depth) (DrawnIn p e₀ (p.maxExprDepth - depth) ty) :=
  .ite (fun hdepth => hdepth ▸ generate_drawn ty) fun _ => atDepth_drawn depth .whole ty

theorem literalAt_drawn (depth : Nat) (ty : Ty) :
    Keeps .none e₀ (literalAt p depth ty) (DrawnIn p e₀ (p.maxExprDepth - depth) ty) :=
  drawLiteral_drawn (fun ty => deeperThan_drawn _ _ .whole ty) ty

theorem callAt_drawn (depth : Nat) (function : String) (params : List Ty) :
    Keeps .none e₀ (callAt p depth function params) fun x => ∃ args, x = .call function args ∧
      args.length = params.length ∧
      ∀ part ∈ args.zip params, DrawnIn p e₀ (p.maxExprDepth - depth - 1) part.2 part.1 :=
  drawCall_keeps (fun param _ => deeperThan_drawn _ _ .whole param) function

/-! ## Nothing is declared -/

theorem generate_quiet (ty : Ty) : Keeps .none e₀ (generate p ty) fun _ => True :=
  (generate_drawn ty).mono fun _ _ => trivial

theorem callAt_quiet (depth : Nat) (function : String) (params : List Ty) :
    Keeps .none e₀ (callAt p depth function params) fun x => ∃ args, x = .call function args ∧
      args.length = params.length ∧ ∀ part ∈ args.zip params, True :=
  (callAt_drawn depth function params).mono fun _ ⟨args, hx, hlength, _⟩ => ⟨args, hx, hlength, fun _ _ => trivial⟩

end Expr

end TensorFuzz
