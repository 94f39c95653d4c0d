import TensorFuzz.Proofs.Check.Constants

/-!
# Checking well-typed expressions

The checker folds integer constants on its way through a text. `Expr.folded` is the same folding on trees: it
ends in a fault where the smallest 128-bit integer is divided by minus one, and only there. The text of a
well-typed expression is checked to its type exactly if the folding of the tree does not end in a fault.
-/

namespace TensorFuzz

open Check

variable {scope : Scope} {records : Registry}

/-! ## Folding -/

namespace Expr

mutual

/-- The value of an expression if it is an integer constant, folded as the checker does it. -/
def folded : Expr → Except Error (Option Int)
  | nothing | bool _ | float _ | string _ | name _ => .ok none
  | int value => .ok (some value)
  | list items => do
    foldedAll items
    return none
  | record _ values => do
    foldedAll values
    return none
  | call _ args => do
    foldedAll args
    return none
  | field source _ => do
    let _ ← source.folded
    return none
  | group inner => inner.folded
  | entry source index => do
    let _ ← source.folded
    let _ ← index.folded
    return none
  | row source index => do
    let _ ← source.folded
    let _ ← index.folded
    return none
  | slice source _ step _ => do
    let _ ← source.folded
    let _ ← step.folded
    return none
  | window source _ rowStep _ _ colStep _ => do
    let _ ← source.folded
    let _ ← rowStep.folded
    let _ ← colStep.folded
    return none
  | query source _ => do
    let _ ← source.folded
    return none
  | binary op left right => do fold op.symbol (← left.folded) (← right.folded)
  | negate operand => do return (← operand.folded).bind fun v => checked128 (-v)
  | not operand => do
    let _ ← operand.folded
    return none
  | select condition yes no => do
    let _ ← condition.folded
    let _ ← yes.folded
    let _ ← no.folded
    return none

/-- Folds expressions one after another. -/
def foldedAll : List Expr → Except Error Unit
  | [] => .ok ()
  | e :: es => do
    let _ ← e.folded
    foldedAll es

end

attribute [local simp] folded foldedAll

/-- What checking an expression of a type comes to. -/
def outcome (x : Expr) (ty : Ty) : Outcome := do return ⟨ty, ← x.folded⟩

theorem outcome_none {x : Expr} {ty : Ty} (h : x.folded = .ok none) : x.outcome ty = .ok (.of ty) := by
  rw [outcome, h]
  rfl

/-- Two operands are checked, and then what the operator makes of them. -/
theorem outcome_binary {op : BinaryOp} {left right : Expr} {l r ty : Ty} {combine : Typed → Typed → Outcome}
    (h : ∀ v w, combine ⟨l, v⟩ ⟨r, w⟩ = do return ⟨ty, ← fold op.symbol v w⟩) :
    (do combine (← left.outcome l) (← right.outcome r)) = (Expr.binary op left right).outcome ty := by
  unfold outcome
  rw [folded]
  cases left.folded with
  | error e => rfl
  | ok v =>
    cases right.folded with
    | error e => rfl
    | ok w => exact h v w

theorem connective_eq {symbol : Symbol} (hfold : ∀ v w, fold symbol v w = .ok none) (v w : Option Int) :
    connective symbol ⟨.bool, v⟩ ⟨.bool, w⟩ = do return ⟨.bool, ← fold symbol v w⟩ := by
  rw [hfold]
  rfl

theorem comparison_eq {symbol : Symbol} (hfold : ∀ v w, fold symbol v w = .ok none) {ty : Ty}
    (hty : ty.isNumber = true) (v w : Option Int) :
    comparison symbol ⟨ty, v⟩ ⟨ty, w⟩ = do return ⟨.bool, ← fold symbol v w⟩ := by
  rw [hfold, comparison, hty, require, if_pos rfl]
  rfl

theorem operate_eq {symbol : Symbol} {l r ty : Ty} (hty : arithmetic symbol l r = .ok ty) (v w : Option Int) :
    operate symbol ⟨l, v⟩ ⟨r, w⟩ = do return ⟨ty, ← fold symbol v w⟩ := by
  rw [operate, hty]
  rfl

theorem itemTys_outcome {item : Ty} (items : List Expr) :
    itemTys (items.map (·.outcome item)) = do
      foldedAll items
      return items.map fun _ => item := by
  induction items with
  | nil => rfl
  | cons x items ih =>
    rw [List.map_cons, itemTys_cons, ih, foldedAll, outcome]
    cases x.folded with
    | error e => rfl
    | ok v => cases foldedAll items <;> rfl

/-- Expressions of different types, each with the type in its place. -/
theorem itemTys_zip (items : List Expr) (tys : List Ty) (hlength : items.length = tys.length) :
    itemTys ((items.zip tys).map fun part => part.1.outcome part.2) = do
      foldedAll items
      return tys := by
  induction items generalizing tys with
  | nil =>
    cases tys with
    | nil => rfl
    | cons => simp at hlength
  | cons x items ih =>
    cases tys with
    | nil => simp at hlength
    | cons ty tys =>
      rw [List.zip_cons_cons, List.map_cons, itemTys_cons, ih tys (by simpa using hlength), foldedAll, outcome]
      cases x.folded with
      | error e => rfl
      | ok v => cases foldedAll items <;> rfl

theorem requireFields_same (fields : List Field) : requireFields fields (fields.map (·.ty)) = .ok () := by
  induction fields with
  | nil => rfl
  | cons field fields ih =>
    rw [List.map_cons, requireFields, require, if_pos rfl]
    exact ih

theorem requireArgs_same (function : String) (tys : List Ty) : requireArgs function tys tys = .ok () := by
  induction tys with
  | nil => rfl
  | cons ty tys ih =>
    rw [requireArgs, require, if_pos rfl]
    exact ih

theorem outcome_ty {x : Expr} {ty : Ty} {t : Typed} (h : x.outcome ty = .ok t) : t.ty = ty := by
  unfold outcome at h
  cases hx : x.folded with
  | error e =>
    rw [hx] at h
    cases h
  | ok v =>
    rw [hx] at h
    cases h
    rfl

/-! ## The checker on trees -/

theorem derives_congr {level : Level} {ts ts' : List Token} {o o' : Outcome}
    (h : Derives scope records level ts o) (hts : ts = ts') (ho : o = o') : Derives scope records level ts' o' :=
  hts ▸ ho ▸ h

theorem derives_list {items : List Expr} {item ty : Ty}
    (h : ∀ x ∈ items, Derives scope records .select x.tokens (x.outcome item))
    (hty : listTy (items.map fun _ => item) = .ok ty) :
    Derives scope records .atom (Expr.list items).tokens ((Expr.list items).outcome ty) := by
  refine derives_congr (@Derives.list scope records (items.map fun x => (x.tokens, x.outcome item)) ?_) ?_ ?_
  · intro part hpart
    obtain ⟨x, hx, rfl⟩ := List.mem_map.mp hpart
    exact h x hx
  · rw [tokens, itemTokens_eq_map, List.map_map]
    rfl
  · rw [List.map_map]
    show (do return Typed.of (← listTy (← itemTys (items.map fun x => x.outcome item))) : Outcome) = _
    rw [itemTys_outcome, outcome, folded]
    cases foldedAll items with
    | error e => rfl
    | ok _ =>
      show (do return Typed.of (← listTy (items.map fun _ => item)) : Outcome) = _
      rw [hty]
      rfl

section
variable {items : List Expr} {tys : List Ty} (hlength : items.length = tys.length)
  (h : ∀ part ∈ items.zip tys, Derives scope records .select part.1.tokens (part.1.outcome part.2))
include hlength

theorem tokens_zip : ((items.zip tys).map fun part => (part.1.tokens, part.1.outcome part.2)).map (·.1) =
    itemTokens items := by
  have hfst := congrArg (List.map tokens) (List.map_fst_zip (Nat.le_of_eq hlength))
  rw [List.map_map] at hfst ⊢
  rw [itemTokens_eq_map, ← hfst]
  rfl

theorem outcomes_zip : itemTys (((items.zip tys).map fun part => (part.1.tokens, part.1.outcome part.2)).map (·.2)) =
    (do
      foldedAll items
      return tys) := by
  rw [List.map_map]
  exact itemTys_zip items tys hlength

include h

theorem derives_record {id : String} {fields : List Field} (hfields : records.fields? id = some fields)
    (htys : tys = fields.map (·.ty)) : Derives scope records .atom (Expr.record id items).tokens
      ((Expr.record id items).outcome (.record id)) := by
  refine derives_congr (@Derives.record scope records id
    ((items.zip tys).map fun part => (part.1.tokens, part.1.outcome part.2)) ?_) ?_ ?_
  · intro part hpart
    obtain ⟨x, hx, rfl⟩ := List.mem_map.mp hpart
    exact h x hx
  · rw [tokens_zip hlength, tokens]
  · have hrecord : recordTy records id tys = .ok (.record id) := by
      rw [recordTy, hfields]
      show (if fields.length ≠ tys.length then _ else _) = _
      rw [if_neg (by simp [htys]), htys, requireFields_same]
      rfl
    rw [outcomes_zip hlength, outcome, folded]
    cases foldedAll items with
    | error e => rfl
    | ok _ =>
      show (do return Typed.of (← recordTy records id tys) : Outcome) = _
      rw [hrecord]
      rfl

theorem derives_call {id : String} {b : Binding} {ty : Ty} {label : Option String} (hid : IsReference id)
    (hlookup : scope.lookup? id = some b) (hfunction : b.isFunction = true) (htys : tys = b.params)
    (hty : labelledTy records b.ty label = .ok ty) :
    Derives scope records .atom ((Expr.call id items).labelled label).tokens
      (((Expr.call id items).labelled label).outcome ty) := by
  refine derives_congr (@Derives.call scope records id b
    ((items.zip tys).map fun part => (part.1.tokens, part.1.outcome part.2)) label
    ⟨hid.ne_true, hid.ne_false⟩ hlookup hfunction ?_) ?_ ?_
  · intro part hpart
    obtain ⟨x, hx, rfl⟩ := List.mem_map.mp hpart
    exact h x hx
  · rw [tokens_zip hlength]
    cases label <;> simp [labelled, tokens, labelTokens]
  · have hcall : callTy b tys = .ok b.ty := by
      rw [callTy, if_neg (by simp [htys]), htys, requireArgs_same]
      rfl
    have hfolded : ((Expr.call id items).labelled label).folded = (do
        foldedAll items
        return none) := by
      cases label with
      | none => rw [labelled, folded]
      | some label =>
        rw [labelled, folded, folded]
        cases foldedAll items <;> rfl
    rw [outcomes_zip hlength, outcome, hfolded]
    cases foldedAll items with
    | error e => rfl
    | ok _ =>
      show (do return Typed.of (← labelledTy records (← callTy b tys) label) : Outcome) = _
      rw [hcall, ok_bind, hty]
      rfl

end

theorem derives_name {id : String} {b : Binding} {ty : Ty} {label : Option String} (hid : IsReference id)
    (hlookup : scope.lookup? id = some b) (hfunction : b.isFunction = false)
    (hty : labelledTy records b.ty label = .ok ty) :
    Derives scope records .atom ((Expr.name id).labelled label).tokens
      (((Expr.name id).labelled label).outcome ty) := by
  refine derives_congr (.name label ⟨hid.ne_true, hid.ne_false⟩ hlookup hfunction) ?_ ?_
  · cases label <;> rfl
  · rw [hty, outcome_none (by cases label <;> rfl)]
    rfl

section
variable {source index step : Expr} {sourceTy ty : Ty} {kind : Kind}

/-- An entry of a vector, or a row of a matrix. -/
theorem derives_selection {x : Expr} (hx : x = .entry source index ∨ x = .row source index)
    (hsource : Derives scope records .atom source.tokens (source.outcome sourceTy))
    (hindex : Derives scope records .select index.tokens (index.outcome .int)) (hty : entryTy sourceTy = .ok ty) :
    Derives scope records .element x.tokens (x.outcome ty) := by
  have hfolded : x.folded = (do
      let _ ← source.folded
      let _ ← index.folded
      return none) := by
    rcases hx with rfl | rfl <;> rfl
  refine derives_congr (.element hsource hindex) (by rcases hx with rfl | rfl <;> rfl) ?_
  unfold outcome
  rw [hfolded]
  cases source.folded with
  | error e => rfl
  | ok v =>
    cases index.folded with
    | error e => rfl
    | ok w =>
      show (do return Typed.of (← entryTy sourceTy) : Outcome) = _
      rw [hty]
      rfl

theorem derives_slice {lo hi : ConstExpr} {length count : Nat} {a b : Int}
    (hsource : Derives scope records .element source.tokens (source.outcome (.vector kind length)))
    (hlo : lo.Denotes .sum a) (hstep : Derives scope records .select step.tokens (step.outcome .int))
    (hhi : hi.Denotes .sum b) (hcount : indexCount a b = .ok count) :
    Derives scope records .slice (Expr.slice source lo step hi).tokens
      ((Expr.slice source lo step hi).outcome (sliceTy kind count)) := by
  refine derives_congr (.slice hsource (fun _ h => ⟨_, outcome_ty h⟩) ((derives_constant hlo).loosen (by decide)) hstep
    ((derives_constant hhi).loosen (by decide))) rfl ?_
  have hfolded : (Expr.slice source lo step hi).folded = (do
      let _ ← source.folded
      let _ ← step.folded
      return none) := rfl
  unfold outcome
  rw [hfolded]
  cases source.folded with
  | error e => rfl
  | ok v =>
    cases step.folded with
    | error e => rfl
    | ok w =>
      show (do return Typed.of (sliceTy kind (← indexCount a b)) : Outcome) = _
      rw [hcount]
      rfl

theorem derives_window {rowStep colStep : Expr} {rowLo rowHi colLo colHi : ConstExpr}
    {rows cols height width : Nat} {a b c d : Int}
    (hsource : Derives scope records .element source.tokens (source.outcome (.matrix kind rows cols)))
    (ha : rowLo.Denotes .sum a) (hrowStep : Derives scope records .select rowStep.tokens (rowStep.outcome .int))
    (hb : rowHi.Denotes .sum b) (hheight : indexCount a b = .ok height)
    (hc : colLo.Denotes .sum c) (hcolStep : Derives scope records .select colStep.tokens (colStep.outcome .int))
    (hd : colHi.Denotes .sum d) (hwidth : indexCount c d = .ok width) :
    Derives scope records .slice (Expr.window source rowLo rowStep rowHi colLo colStep colHi).tokens
      ((Expr.window source rowLo rowStep rowHi colLo colStep colHi).outcome (windowTy kind height width)) := by
  refine derives_congr (.window hsource (fun _ h => ⟨_, _, outcome_ty h⟩) ((derives_constant ha).loosen (by decide))
    hrowStep ((derives_constant hb).loosen (by decide)) ((derives_constant hc).loosen (by decide)) hcolStep
    ((derives_constant hd).loosen (by decide))) rfl ?_
  have hfolded : (Expr.window source rowLo rowStep rowHi colLo colStep colHi).folded = (do
      let _ ← source.folded
      let _ ← rowStep.folded
      let _ ← colStep.folded
      return none) := rfl
  unfold outcome
  rw [hfolded]
  cases source.folded with
  | error e => rfl
  | ok v =>
    cases rowStep.folded with
    | error e => rfl
    | ok w =>
      show (do
        let rows ← indexCount a b
        return Typed.of (windowTy kind rows (← spanOf _ _ _)) : Outcome) = _
      rw [hheight, ok_bind]
      cases colStep.folded with
      | error e => rfl
      | ok w' =>
        show (do return Typed.of (windowTy kind height (← indexCount c d)) : Outcome) = _
        rw [hwidth]
        rfl

theorem derives_query {query : SizeQuery} (h : Derives scope records .dot source.tokens (source.outcome ty))
    (hfits : query.Fits ty) :
    Derives scope records .query (Expr.query source query).tokens ((Expr.query source query).outcome .int) := by
  refine derives_congr (.query h) rfl ?_
  have hfolded : (Expr.query source query).folded = (do
      let _ ← source.folded
      return none) := rfl
  unfold outcome
  rw [hfolded]
  cases source.folded with
  | error e => rfl
  | ok v =>
    show sizeQuery query.name ty = _
    rw [sizeQuery, if_pos (by cases query <;> simp_all [SizeQuery.Fits, SizeQuery.name])]
    rfl

theorem derives_negate {x : Expr} (h : Derives scope records .negate x.tokens (x.outcome ty))
    (hty : ty.isNumber = true) :
    Derives scope records .negate (Expr.negate x).tokens ((Expr.negate x).outcome ty) := by
  refine derives_congr h.negate rfl ?_
  have hfolded : (Expr.negate x).folded = (do return (← x.folded).bind fun v => checked128 (-v)) := rfl
  unfold outcome
  rw [hfolded]
  cases x.folded with
  | error e => rfl
  | ok v =>
    show negation ⟨ty, v⟩ = _
    rw [negation, hty]
    rfl

theorem derives_not {x : Expr} (h : Derives scope records .compare x.tokens (x.outcome .bool)) :
    Derives scope records .not (Expr.not x).tokens ((Expr.not x).outcome .bool) := by
  refine derives_congr h.not rfl ?_
  have hfolded : (Expr.not x).folded = (do
      let _ ← x.folded
      return none) := rfl
  unfold outcome
  rw [hfolded]
  cases x.folded <;> rfl

theorem derives_select {condition yes no : Expr}
    (hcondition : Derives scope records .or condition.tokens (condition.outcome .bool))
    (hyes : Derives scope records .or yes.tokens (yes.outcome ty))
    (hno : Derives scope records .or no.tokens (no.outcome ty)) :
    Derives scope records .select (Expr.select condition yes no).tokens
      ((Expr.select condition yes no).outcome ty) := by
  refine derives_congr (.select hcondition hyes hno) rfl ?_
  have hfolded : (Expr.select condition yes no).folded = (do
      let _ ← condition.folded
      let _ ← yes.folded
      let _ ← no.folded
      return none) := rfl
  unfold outcome
  rw [hfolded]
  cases condition.folded with
  | error e => rfl
  | ok u =>
    cases yes.folded with
    | error e => rfl
    | ok v =>
      cases no.folded with
      | error e => rfl
      | ok w =>
        show (do
          require ty ty "select branches"
          return .of ty : Outcome) = _
        rw [require, if_pos rfl]
        rfl

end

theorem derives_binary {op : BinaryOp} {left right : Expr} {l r ty : Ty} (hjoins : op.Joins l r ty)
    (hleft : Derives scope records op.leftLevel left.tokens (left.outcome l))
    (hright : Derives scope records op.rightLevel right.tokens (right.outcome r)) :
    Derives scope records op.level (Expr.binary op left right).tokens ((Expr.binary op left right).outcome ty) := by
  cases op with
  | or | and =>
    obtain ⟨rfl, rfl, rfl⟩ := hjoins
    refine derives_congr (.right rfl rfl hleft hright) rfl (outcome_binary (connective_eq fun v w => ?_))
    cases v <;> cases w <;> rfl
  | equal | atMost | atLeast | unequal | greater | less =>
    obtain ⟨hnumber, rfl, rfl⟩ := hjoins
    refine derives_congr (.compare (by decide) hleft hright) rfl
      (outcome_binary (comparison_eq (fun v w => ?_) hnumber))
    cases v <;> cases w <;> rfl
  | add | subtract | multiply | divide =>
    exact derives_congr (.left rfl rfl (by decide) hleft hright) rfl (outcome_binary (operate_eq hjoins))
  | power => exact derives_congr (.right rfl rfl hleft hright) rfl (outcome_binary (operate_eq hjoins))
  | dot =>
    refine derives_congr (.left rfl rfl (by decide) hleft hright) rfl (outcome_binary fun v w => ?_)
    show Typed.of <$> dotProduct l r = _
    have hfold : fold .dot v w = .ok none := by cases v <;> cases w <;> rfl
    rw [show dotProduct l r = .ok ty from hjoins, BinaryOp.symbol, hfold]
    rfl
  | matmul =>
    refine derives_congr (.left rfl rfl (by decide) hleft hright) rfl (outcome_binary fun v w => ?_)
    show Typed.of <$> matrixProduct l r = _
    have hfold : fold .hash v w = .ok none := by cases v <;> cases w <;> rfl
    rw [show matrixProduct l r = .ok ty from hjoins, BinaryOp.symbol, hfold]
    rfl

theorem derives_of_hasType {level : Level} {x : Expr} {ty : Ty} (h : x.HasType scope records level ty) :
    Derives scope records level x.tokens (x.outcome ty) := by
  induction h with
  | lift htighter _ ih => exact .lift htighter ih
  | bool value =>
    rw [outcome_none (by simp)]
    refine .bool ?_
    cases value <;> simp
  | int _ => exact .int _
  | float parts => exact .float
  | string _ => exact .string
  | list _ hty ih => exact derives_list ih hty
  | record hid hfields hlength _ ih =>
    refine derives_record (by simpa using hlength) ?_ hfields rfl
    rw [List.zip_map_right]
    intro part hpart
    obtain ⟨part', hpart', rfl⟩ := List.mem_map.mp hpart
    exact ih part' hpart'
  | name label hid _ hlookup hfunction hty => exact derives_name hid hlookup hfunction hty
  | call label hid _ hlookup hfunction hlength _ hty ih => exact derives_call hlength ih hid hlookup hfunction rfl hty
  | group _ ih => exact .group ih
  | entry _ _ ih ih' => exact derives_selection (.inl rfl) ih ih' rfl
  | row _ _ ih ih' => exact derives_selection (.inr rfl) ih ih' rfl
  | slice _ hlo _ hhi hcount ih ih' => exact derives_slice ih hlo ih' hhi hcount
  | window _ ha _ hb hheight hc _ hd hwidth ih ih₁ ih₂ => exact derives_window ih ha ih₁ hb hheight hc ih₂ hd hwidth
  | query _ hfits ih => exact derives_query ih hfits
  | binary _ _ hjoins ih ih' => exact derives_binary hjoins ih ih'
  | negate _ hty ih => exact derives_negate ih hty
  | not _ ih => exact derives_not ih
  | select _ _ _ ih ih' ih'' => exact derives_select ih ih' ih''

/-- The text of a well-typed expression is checked to its type, unless folding it ends in a fault. -/
theorem check_of_hasType {level : Level} {x : Expr} {ty : Ty} (h : x.HasType scope records level ty) :
    check scope records x.text = (do
      let _ ← x.folded
      return ty) := by
  have hlexes : Lexes (x.text.toList ++ []) (x.tokens ++ []) := cuts_text h [] [] bounded_nil (.nil rfl)
  rw [List.append_nil, List.append_nil] at hlexes
  have hwhole : Derives scope records .select x.tokens (x.outcome ty) := by
    cases level with
    | whole => exact derives_of_hasType (h.of_whole rfl)
    | _ => exact (derives_of_hasType h).loosen (by decide)
  rw [check_of_derives (tokens_of_lexes hlexes) hwhole, outcome, bind_assoc]
  rfl

/-! ## Folding that ends in a fault -/

/-- The operands of an expression that are checked on their own. -/
def parts : Expr → List Expr
  | nothing | bool _ | float _ | string _ | name _ | int _ => []
  | list items | record _ items | call _ items => items
  | field x _ | group x | query x _ | negate x | not x => [x]
  | entry x y | row x y | slice x _ y _ | binary _ x y => [x, y]
  | window x _ y _ _ z _ | select x y z => [x, y, z]

/-- Somewhere in the expression the smallest 128-bit integer is divided by minus one. -/
inductive Overflows : Expr → Prop
  | division {left right : Expr} : left.folded = .ok (some least128) → right.folded = .ok (some (-1)) →
      Overflows (.binary .divide left right)
  | part {x y : Expr} : y ∈ x.parts → Overflows y → Overflows x

/-- The text of the expression is checked to the type, except that the check ends in a fault where a remainder
overflows. -/
def Accepted (scope : Scope) (records : Registry) (ty : Ty) (x : Expr) : Prop :=
  (¬ x.Overflows → check scope records x.text = .ok ty) ∧
    (x.Overflows → check scope records x.text = .error (.fault .remainderOverflow))

/-- There is a result, or a remainder that overflows and a reason for it. -/
def Folds {α : Type} (o : Except Error α) (reason : Prop) : Prop :=
  (∃ a, o = .ok a) ∨ (o = .error (.fault .remainderOverflow) ∧ reason)

section
variable {α β : Type} {o : Except Error α} {reason reason' : Prop}

theorem Folds.bind {f : α → Except Error β} (h : Folds o reason) (hf : ∀ a, o = .ok a → Folds (f a) reason) :
    Folds (o >>= f) reason := by
  rcases h with ⟨a, rfl⟩ | ⟨rfl, hreason⟩
  · exact hf a rfl
  · exact .inr ⟨rfl, hreason⟩

theorem Folds.mono (h : Folds o reason) (hreason : reason → reason') : Folds o reason' :=
  h.imp_right fun hfault => ⟨hfault.1, hreason hfault.2⟩

theorem Folds.ok (a : α) : Folds (.ok a) reason := .inl ⟨a, rfl⟩

end

theorem fold_folds (op : BinaryOp) (left right : Option Int) : Folds (fold op.symbol left right)
    (op = .divide ∧ left = some least128 ∧ right = some (-1)) := by
  cases left with
  | none => exact .ok none
  | some a =>
    cases right with
    | none => exact .ok none
    | some b =>
      cases op with
      | divide =>
        show Folds (if b = 0 then _ else if a = least128 ∧ b = -1 then _ else _) _
        split
        · exact .ok _
        · split
          · next h => exact .inr ⟨rfl, rfl, by rw [h.1], by rw [h.2]⟩
          · exact .ok _
      | _ => exact .ok _

theorem Folds.part {x y : Expr} (h : Folds y.folded y.Overflows) (hy : y ∈ x.parts) :
    Folds y.folded x.Overflows := h.mono (.part hy)

mutual

/-- Folding ends in a result, or in the one fault where a division overflows. -/
theorem folded_folds : (x : Expr) → Folds x.folded x.Overflows
  | nothing | bool _ | float _ | string _ | name _ | int _ => .ok _
  | list items => ((foldedAll_folds items).mono fun ⟨_, hy, h⟩ => .part hy h).bind fun _ _ => .ok _
  | record _ items => ((foldedAll_folds items).mono fun ⟨_, hy, h⟩ => .part hy h).bind fun _ _ => .ok _
  | call _ items => ((foldedAll_folds items).mono fun ⟨_, hy, h⟩ => .part hy h).bind fun _ _ => .ok _
  | group x => (folded_folds x).part (.head _)
  | field x _ => ((folded_folds x).part (.head _)).bind fun _ _ => .ok _
  | query x _ => ((folded_folds x).part (.head _)).bind fun _ _ => .ok _
  | negate x => ((folded_folds x).part (.head _)).bind fun _ _ => .ok _
  | not x => ((folded_folds x).part (.head _)).bind fun _ _ => .ok _
  | entry x y | row x y | slice x _ y _ =>
    ((folded_folds x).part (.head _)).bind fun _ _ =>
      ((folded_folds y).part (.tail _ (.head _))).bind fun _ _ => .ok _
  | window x _ y _ _ z _ | select x y z =>
    ((folded_folds x).part (.head _)).bind fun _ _ => ((folded_folds y).part (.tail _ (.head _))).bind fun _ _ =>
      ((folded_folds z).part (.tail _ (.tail _ (.head _)))).bind fun _ _ => .ok _
  | binary _ x y =>
    ((folded_folds x).part (.head _)).bind fun _ hl => ((folded_folds y).part (.tail _ (.head _))).bind fun _ hr =>
      (fold_folds _ _ _).mono fun ⟨hop, hv, hw⟩ => by
        subst hop hv hw
        exact .division hl hr

/-- Folding expressions one after another ends in results, or in the fault of one of them. -/
theorem foldedAll_folds : (items : List Expr) → Folds (foldedAll items) (∃ y ∈ items, y.Overflows)
  | [] => .ok ()
  | x :: items => (folded_folds x).mono (fun h => ⟨x, by simp, h⟩) |>.bind fun _ _ =>
    (foldedAll_folds items).mono fun ⟨y, hy, h⟩ => ⟨y, by simp [hy], h⟩

end

theorem folded_of_foldedAll {items : List Expr} (h : foldedAll items = .ok ()) :
    ∀ y ∈ items, ∃ v, y.folded = .ok v := by
  induction items with
  | nil => exact fun y hy => absurd hy (List.not_mem_nil)
  | cons x items ih =>
    obtain ⟨v, hx, hitems⟩ := exists_of_bind_ok h
    rintro y (_ | ⟨_, hy⟩)
    · exact ⟨v, hx⟩
    · exact ih hitems y hy

/-- Folding an expression to a result folds its parts to results. -/
theorem folded_part {x y : Expr} {v : Option Int} (h : x.folded = .ok v) (hy : y ∈ x.parts) :
    ∃ w, y.folded = .ok w := by
  cases x with
  | nothing | bool | float | string | name | int => cases hy
  | list items | record _ items | call _ items =>
    obtain ⟨_, hall, -⟩ := exists_of_bind_ok h
    exact folded_of_foldedAll hall y hy
  | group x =>
    obtain rfl := List.mem_singleton.mp hy
    exact ⟨v, h⟩
  | field x | query x | negate x | not x =>
    obtain rfl := List.mem_singleton.mp hy
    obtain ⟨w, hw, -⟩ := exists_of_bind_ok h
    exact ⟨w, hw⟩
  | entry x x' | row x x' | slice x _ x' | binary _ x x' =>
    obtain ⟨w, hw, h⟩ := exists_of_bind_ok h
    obtain ⟨w', hw', -⟩ := exists_of_bind_ok h
    rcases List.mem_cons.mp hy with rfl | hy
    · exact ⟨w, hw⟩
    · obtain rfl := List.mem_singleton.mp hy
      exact ⟨w', hw'⟩
  | window x _ x' _ _ x'' | select x x' x'' =>
    obtain ⟨w, hw, h⟩ := exists_of_bind_ok h
    obtain ⟨w', hw', h⟩ := exists_of_bind_ok h
    obtain ⟨w'', hw'', -⟩ := exists_of_bind_ok h
    rcases List.mem_cons.mp hy with rfl | hy
    · exact ⟨w, hw⟩
    · rcases List.mem_cons.mp hy with rfl | hy
      · exact ⟨w', hw'⟩
      · obtain rfl := List.mem_singleton.mp hy
        exact ⟨w'', hw''⟩

theorem folded_of_overflows {x : Expr} (h : x.Overflows) : x.folded = .error (.fault .remainderOverflow) := by
  induction h with
  | division hl hr =>
    rw [folded, hl, hr]
    rfl
  | @part x y hy _ ih =>
    rcases folded_folds x with ⟨v, hv⟩ | ⟨hfault, -⟩
    · obtain ⟨w, hw⟩ := folded_part hv hy
      rw [ih] at hw
      cases hw
    · exact hfault

/-- The text of a well-typed expression is accepted with its type, unless a remainder overflows on the way. -/
theorem accepted_of_hasType {level : Level} {x : Expr} {ty : Ty} (h : x.HasType scope records level ty) :
    x.Accepted scope records ty := by
  refine ⟨fun hno => ?_, fun hoverflows => ?_⟩
  · rcases folded_folds x with ⟨v, hv⟩ | ⟨-, hoverflows⟩
    · rw [check_of_hasType h, hv]
      rfl
    · exact absurd hoverflows hno
  · rw [check_of_hasType h, folded_of_overflows hoverflows]
    rfl

end Expr

end TensorFuzz
