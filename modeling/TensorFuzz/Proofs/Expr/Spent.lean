import TensorFuzz.Proofs.Expr.Combinations
import TensorFuzz.Proofs.Expr.Soundness

/-!
# Spent budgets

Where no depth is left, or no node, an operand is a literal, and so is every part of it: nothing is combined, nothing
declared is referred to but records, and no node is spent. A level looks at the budget only, so what has to be kept
along a run is the registry and the number of nodes left; what the scope holds does not matter.
-/

namespace TensorFuzz

open Check (separated)

/-! ## Literals -/

/-- The marks of literals with parts. -/
def Check.literalMarks : List Check.Symbol := [.openBracket, .closeBracket, .comma, .at]

/-- The tokens of literals: numbers, strings, truth values, names of records, and the marks around the parts. -/
def Check.Token.InLiteral (records : Registry) : Token → Prop
  | .int _ | .float | .string => True
  | .ident name => name = "true" ∨ name = "false" ∨ name ∈ records.ids
  | .symbol s => s ∈ literalMarks
  | .query _ => False

theorem Check.mem_separated {parts : List (List Token)} {t : Token} (h : t ∈ separated parts) :
    t = .symbol .comma ∨ ∃ part ∈ parts, t ∈ part := by
  induction parts with
  | nil => cases h
  | cons part parts ih =>
    cases parts with
    | nil => exact .inr ⟨part, List.mem_cons_self, h⟩
    | cons next parts =>
      rw [separated, List.mem_append, List.mem_cons] at h
      rcases h with h | rfl | h
      · exact .inr ⟨part, List.mem_cons_self, h⟩
      · exact .inl rfl
      · rcases ih h with rfl | ⟨found, hfound, ht⟩
        · exact .inl rfl
        · exact .inr ⟨found, List.mem_cons_of_mem _ hfound, ht⟩
      · simp

namespace Expr

/-- The expression is a literal, and its parts are literals. -/
inductive Literal : Expr → Prop
  | bool (value : Bool) : Literal (.bool value)
  | int (value : Nat) : Literal (.int value)
  | float (parts : Nat) : Literal (.float parts)
  | string (content : String) : Literal (.string content)
  | list {items : List Expr} : (∀ x ∈ items, Literal x) → Literal (.list items)
  | record {id : String} {values : List Expr} : (∀ x ∈ values, Literal x) → Literal (.record id values)

theorem Literal.part {x y : Expr} (h : x.Literal) (hy : y ∈ x.parts) : y.Literal := by
  cases h with
  | list hitems => exact hitems y hy
  | record hvalues => exact hvalues y hy
  | _ => cases hy

/-- A literal divides nothing. -/
theorem Literal.not_overflows {x : Expr} (h : x.Literal) : ¬ x.Overflows := fun hoverflows => by
  induction hoverflows with
  | division => cases h
  | part hy _ ih => exact ih (h.part hy)

/-- The expression is a literal of the type that refers to nothing declared but records: its text is made of the tokens
of literals, and is accepted in the empty scope. -/
structure ClosedLiteral (records : Registry) (ty : Ty) (x : Expr) : Prop where
  literal : x.Literal
  tokens : ∃ ts, Check.tokens x.text = .ok ts ∧ ∀ t ∈ ts, t.InLiteral records
  accepted : Check.check .empty records x.text = .ok ty

theorem combinations_of_tallyAll {items : List Expr} (h : tallyAll (· + ·) items = 0) :
    ∀ x ∈ items, x.combinations = 0 := by
  induction items with
  | nil => exact List.forall_mem_nil _
  | cons x items ih =>
    obtain ⟨hx, hitems⟩ := Nat.add_eq_zero_iff.mp h
    exact List.forall_mem_cons.mpr ⟨hx, ih hitems⟩

section
variable {records : Registry}

theorem inLiteral_mark {mark : Check.Symbol} (h : mark ∈ Check.literalMarks) :
    (Check.Token.symbol mark).InLiteral records := h

theorem inLiteral_items {items : List Expr} (h : ∀ x ∈ items, ∀ t ∈ x.tokens, t.InLiteral records) :
    ∀ t ∈ .symbol .openBracket :: (separated (itemTokens items) ++ [Check.Token.symbol .closeBracket]),
      t.InLiteral records := by
  refine List.forall_mem_cons.mpr ⟨inLiteral_mark (by decide), List.forall_mem_append.mpr ⟨fun t ht => ?_, ?_⟩⟩
  · rcases Check.mem_separated ht with rfl | ⟨part, hpart, ht⟩
    · exact inLiteral_mark (by decide)
    · rw [itemTokens_eq_map] at hpart
      obtain ⟨x, hx, rfl⟩ := List.mem_map.mp hpart
      exact h x hx t ht
  · exact List.forall_mem_singleton.mpr (inLiteral_mark (by decide))

/-- What combines nothing and is typed where nothing is declared is a literal. -/
theorem HasType.literal {level : Level} {x : Expr} {ty : Ty} (h : x.HasType .empty records level ty)
    (hx : x.combinations = 0) : x.Literal ∧ ∀ t ∈ x.tokens, t.InLiteral records := by
  induction h with
  | lift _ _ ih => exact ih hx
  | bool value => exact ⟨.bool value, by cases value <;> simp [tokens, Check.Token.InLiteral]⟩
  | int => exact ⟨.int _, List.forall_mem_singleton.mpr trivial⟩
  | float => exact ⟨.float _, List.forall_mem_singleton.mpr trivial⟩
  | string => exact ⟨.string _, List.forall_mem_singleton.mpr trivial⟩
  | list _ _ ih =>
    have hitems x hmem := ih x hmem (combinations_of_tallyAll hx x hmem)
    exact ⟨.list fun x hmem => (hitems x hmem).1, inLiteral_items fun x hmem => (hitems x hmem).2⟩
  | @record id values fields _ hfields hlength _ ih =>
    have hliteral : ∀ x ∈ values, x.combinations = 0 → x.Literal ∧ ∀ t ∈ x.tokens, t.InLiteral records :=
      Check.forall_of_zip hlength ih
    have hvalues x hmem := hliteral x hmem (combinations_of_tallyAll hx x hmem)
    have hid : id ∈ records.ids := List.mem_map.mpr ⟨_, Registry.mem_of_fields? hfields, rfl⟩
    refine ⟨.record fun x hmem => (hvalues x hmem).1, ?_⟩
    exact List.forall_mem_cons.mpr ⟨inLiteral_mark (by decide), List.forall_mem_cons.mpr
      ⟨.inr (.inr hid), inLiteral_items fun x hmem => (hvalues x hmem).2⟩⟩
  | name _ _ _ hlookup => cases hlookup
  | call _ _ _ hlookup => cases hlookup
  | _ => exact absurd hx (Nat.succ_ne_zero _)

theorem HasType.closedLiteral {level : Level} {x : Expr} {ty : Ty} (h : x.HasType .empty records level ty)
    (hx : x.combinations = 0) : x.ClosedLiteral records ty := by
  obtain ⟨hliteral, htokens⟩ := h.literal hx
  have hlexes := Check.cuts_text h [] [] Check.bounded_nil (.nil rfl)
  rw [List.append_nil, List.append_nil] at hlexes
  exact ⟨hliteral, ⟨x.tokens, Check.tokens_of_lexes hlexes, htokens⟩, (accepted_of_hasType h).1 hliteral.not_overflows⟩

end

/-! ## Generation -/

open Gen

variable {σ : Type} {p : Profile} {records : Registry} {nodes bound : Nat}

/-- The states with the registry and the number of nodes left. -/
def Rests (records : Registry) (nodes : Nat) (e : Engine σ) : Prop := e.records = records ∧ e.nodesLeft = nodes

theorem registering_rests : Engine.Registering (Rests (σ := σ) records nodes) records :=
  ⟨fun _ he => he.1, fun _ _ he => he⟩

/-- The nodes that an operand may spend. At depth zero it is a new expression, with all its nodes. -/
def allowance (p : Profile) (depth : Nat) (e : Engine σ) : Nat := if depth = 0 then p.maxExprNodes else e.nodesLeft

variable [RandomSource σ] {safe : Faults}

section
variable (hshapes : ∀ id fields, records.fields? id = some fields → Shape.Valid p ⟨id, fields⟩)
  (hbound : p.dimensionBound ≤ bound)
include hshapes hbound

/-- With no depth or no node left, an operand is a literal of operands one step deeper, which nest less deep. -/
theorem drawWhole_spent {hasDepth : Bool} {deeper : Levels σ} (hspent : hasDepth = false ∨ nodes = 0) {ty : Ty}
    (hty : ty.Sized records bound)
    (hdeeper : ∀ part : Ty, part.Sized records bound → part.nesting < ty.nesting →
      Within safe (Rests records nodes) (deeper .whole part) (·.HasType .empty records .whole part)) :
    Within safe (Rests records nodes) (drawWhole hasDepth deeper ty) (·.HasType .empty records .whole ty) := by
  have hpart {part : Ty} (hpart : part.Sized records bound) (hnesting : part.nesting < ty.nesting) :
      Within safe (Rests records nodes) (deeper .whole part) (·.HasType .empty records .select part) :=
    (hdeeper part hpart hnesting).mono fun _ hx => hx.of_whole rfl
  refine Within.look fun e he => .ite (fun _ => ?_) fun hleft => absurd ?_ hleft
  · have hfloat (htensor : ty.isTensor = true) :=
      @hpart .float trivial (by cases ty <;> first | exact Nat.one_pos | cases htensor)
    have hfields : ∀ id fields, ty = .record id → records.fields? id = some fields → ∀ field ∈ fields,
        Within safe (Rests records nodes) (deeper .whole field.ty) (·.HasType .empty records .select field.ty) := by
      rintro id fields rfl hfind field hfield
      have hfieldTy := (hshapes id fields hfind).tys field hfield
      exact hpart (hfieldTy.mono (List.nil_subset _) hbound) (Nat.lt_succ_of_le (Ty.nesting_le_one hfieldTy.recordId?))
    exact (drawLiteral_within registering_rests hty hfloat hfields hshapes).mono fun _ hx => hx.loosen (by decide)
  · rcases hspent with rfl | rfl
    · rfl
    · simp [he.2]

/-- The depth that is left and the room behind it are for the parts of the literal. -/
theorem levels_spent {room d : Nat} (hspent : d = 0 ∨ nodes = 0) {ty : Ty} (hty : ty.Sized records bound)
    (hdeep : safe .depthOverflow → ty.nesting ≤ d + room) :
    Within safe (Rests (σ := σ) records nodes) (levels p room d .whole ty) (·.HasType .empty records .whole ty) := by
  induction d generalizing ty with
  | zero =>
    refine drawWhole_spent hshapes hbound (.inl rfl) hty fun part hpart hnesting => ?_
    refine (closedLiteral_within registering_rests hshapes hbound hpart fun hsafe => ?_).mono fun _ hx =>
      hx.loosen (by decide)
    have := hdeep hsafe
    omega
  | succ d ih =>
    have hnodes : nodes = 0 := hspent.resolve_left (Nat.succ_ne_zero d)
    refine drawWhole_spent hshapes hbound (.inr hnodes) hty fun part hpart hnesting => ?_
    refine ih (.inr hnodes) hpart fun hsafe => ?_
    have := hdeep hsafe
    omega

end

/-- The combinations of an operand are the nodes that it may spend less those that are left. -/
theorem operand_accounted {e e' : Engine σ} {ty : Ty} {depth : Nat} {x : Expr}
    (hrun : (operand p ty depth).run e = .ok (x, e')) : e'.nodesLeft + x.combinations = allowance p depth e := by
  unfold operand at hrun
  unfold allowance
  split at hrun
  · next hdepth =>
    rw [if_pos hdepth]
    exact levels_accounted _ _ .whole ty hrun
  · next hdepth =>
    rw [if_neg hdepth]
    exact levels_accounted _ _ .whole ty hrun

theorem operand_spent (hshapes : ∀ id fields, records.fields? id = some fields → Shape.Valid p ⟨id, fields⟩)
    (hbound : p.dimensionBound ≤ bound) {e : Engine σ} (he : e.records = records) {ty : Ty}
    (hty : ty.Sized records bound) {depth : Nat} (hspent : p.maxExprDepth ≤ depth ∨ allowance p depth e = 0)
    (hdeep : safe .depthOverflow → depth + ty.nesting < limit64) :
    Gives safe (fun _ => True) (operand p ty depth) e fun x e' =>
      x.HasType .empty records .whole ty ∧ Rests records (allowance p depth e) e' := by
  have hroom (hsafe : safe .depthOverflow) : ty.nesting ≤ p.maxExprDepth - depth + roomAt p depth := by
    have := hdeep hsafe
    unfold roomAt limit64 at *
    omega
  have hlevels : Within safe (Rests records (allowance p depth e)) (atDepth p depth .whole ty : Gen σ Expr)
      (·.HasType .empty records .whole ty) :=
    levels_spent hshapes hbound (hspent.imp_left Nat.sub_eq_zero_of_le) hty hroom
  have hfrom (e' : Engine σ) (he' : Rests records (allowance p depth e) e') :
      Gives safe (fun _ => True) (atDepth p depth .whole ty) e' fun x e'' =>
        x.HasType .empty records .whole ty ∧ Rests records (allowance p depth e) e'' :=
    (hlevels e' he').mono (fun _ _ => trivial) fun _ _ => id
  refine .ite (fun hdepth => ?_) fun hdepth => hfrom e ⟨he, (if_neg hdepth).symm⟩
  subst hdepth
  refine (Gives.update trivial rfl).bind fun _ e' heq => hfrom e' ?_
  subst heq
  exact ⟨he, rfl⟩

/-- From every state with the records of a reachable one: where the depth or the nodes are spent, an operand is a closed
literal of the type, and no node is spent on it. At the end of the words for depths, where no literal of the type has
its parts, it may stop instead. -/
theorem spent_operand_closed {e₀ e : Engine σ} (hreachable : e₀.Reachable p) (hrecords : e.records = e₀.records)
    {ty : Ty} (hty : ty.Sized e.records bound) {depth : Nat}
    (hspent : p.maxExprDepth ≤ depth ∨ allowance p depth e = 0) :
    (∀ x e', (operand p ty depth).run e = .ok (x, e') →
      x.ClosedLiteral e.records ty ∧ e'.nodesLeft = allowance p depth e) ∧
      (e.supply.Steady → (∃ x e', (operand p ty depth).run e = .ok (x, e')) ∨
        (operand p ty depth).run e = .error .depthOverflow ∧ limit64 ≤ depth + ty.nesting) := by
  have hshapes id fields (hfind : e.records.fields? id = some fields) : Shape.Valid p ⟨id, fields⟩ :=
    hreachable.valid.fields (hrecords ▸ hfind)
  -- the run is safe from every fault but a depth without a successor, and from that as long as words are left
  have hgives : Gives (fun fault => fault = .depthOverflow → depth + ty.nesting < limit64) _ _ _ _ :=
    operand_spent hshapes (Nat.le_max_left _ bound) rfl (hty.widen (Nat.le_max_right _ _)) hspent
      fun hsafe => hsafe rfl
  refine ⟨fun x e' hrun => ?_, fun hsteady => ?_⟩
  · obtain ⟨htyped, -, hnodes⟩ := hgives.of_run hrun
    have hspends := operand_accounted hrun
    exact ⟨htyped.closedLiteral (by omega), hnodes⟩
  · refine (hgives.run_or hsteady).imp (fun ⟨x, e', hrun, _⟩ => ⟨x, e', hrun⟩) fun ⟨fault, hrun, hfault⟩ => ?_
    obtain ⟨rfl, hfull⟩ := Classical.not_imp.mp hfault
    exact ⟨hrun, Nat.le_of_not_lt hfull⟩

/-- A matrix of floats where depth is left, but no node of the default profile. -/
theorem spent_operand_closed_matrix :
    let e : Engine Repeating := { Engine.start {} ⟨Repeating.mk 0, fun _ => 1⟩ with nodesLeft := 0 }
    ∃ x e', (operand {} (.matrix .float 2 3) 1).run e = .ok (x, e') ∧
      x.ClosedLiteral .empty (.matrix .float 2 3) ∧ e'.nodesLeft = 0 := by
  intro e
  have hreachable : (Engine.start {} e.supply).Reachable {} := .start _
  have hty : (Ty.matrix .float 2 3).Sized e.records 3 := ⟨⟨by decide, by decide⟩, by decide, by decide⟩
  have hspent : ({} : Profile).maxExprDepth ≤ 1 ∨ allowance {} 1 e = 0 := .inr rfl
  have hrecords : e.records = (Engine.start {} e.supply).records := rfl
  obtain ⟨hclosed, hexists⟩ := spent_operand_closed hreachable hrecords hty hspent
  obtain ⟨x, e', hrun⟩ := (hexists Repeating.zero_steady).resolve_right fun hfull => absurd hfull.2 (by decide)
  exact ⟨x, e', hrun, hclosed x e' hrun⟩

end Expr

end TensorFuzz
