import TensorFuzz.Proofs.Check.Completeness
import TensorFuzz.Proofs.Text.Consumes

/-!
# Accepted expressions

What a reader takes off the front of the tokens is derivable at its level, with the type that it gives. With the
completeness of the readers, a text is accepted exactly where the typed grammar derives it.
-/

namespace TensorFuzz

open Check

namespace Consumes

variable {β : Type} {Q : List Token → β → Prop}

theorem eat (symbol : Symbol) : Consumes (eat symbol) fun us taken => us = if taken then [.symbol symbol] else [] := by
  intro ts taken rest h
  by_cases hhead : ts.head? = some (.symbol symbol)
  · obtain ⟨ts, rfl⟩ := List.head?_eq_some_iff.mp hhead
    rw [eat_same] at h
    cases h
    exact ⟨[.symbol symbol], rfl, rfl⟩
  · rw [eat_other hhead] at h
    cases h
    exact ⟨[], rfl, rfl⟩

theorem eatOneOf (symbols : List Symbol) : Consumes (eatOneOf symbols) fun us found =>
    us = found.toList.map Token.symbol ∧ ∀ symbol ∈ found, symbol ∈ symbols := by
  intro ts found rest h
  by_cases hhead : ∃ symbol ∈ symbols, ts.head? = some (.symbol symbol)
  · obtain ⟨symbol, hsymbol, hhead⟩ := hhead
    obtain ⟨ts, rfl⟩ := List.head?_eq_some_iff.mp hhead
    rw [eatOneOf_same hsymbol] at h
    cases h
    exact ⟨[.symbol symbol], rfl, rfl, by simpa using hsymbol⟩
  · rw [eatOneOf_other fun symbol hsymbol heq => hhead ⟨symbol, hsymbol, heq⟩] at h
    cases h
    exact ⟨[], rfl, rfl, nofun⟩

theorem branch {symbol : Symbol} {taken other : Reader β}
    (htaken : Consumes taken fun us b => Q (.symbol symbol :: us) b) (hother : Consumes other Q) :
    Consumes (do if ← Check.eat symbol then taken else other) Q := by
  refine (eat symbol).bind fun us found hus => ?_
  cases found with
  | true =>
    cases hus
    exact htaken
  | false =>
    cases hus
    exact hother

theorem expect (symbol : Symbol) : Consumes (expect symbol) fun us _ => us = [.symbol symbol] := by
  refine (eat symbol).bind fun us found hus => ?_
  cases found with
  | true =>
    cases hus
    exact .pure rfl
  | false => nofun

/-- What follows an expected symbol. -/
theorem after {symbol : Symbol} {next : Reader β} (h : Consumes next fun us b => Q (.symbol symbol :: us) b) :
    Consumes (do Check.expect symbol; next) Q := by
  refine (expect symbol).bind fun us _ hus => ?_
  cases hus
  exact h

theorem ident : Consumes ident fun us name => us = [.ident name] := by
  intro ts name rest h
  match ts with
  | [] | .int _ :: _ | .float :: _ | .string :: _ | .query _ :: _ | .symbol _ :: _ => cases h
  | .ident _ :: _ =>
    cases h
    exact ⟨_, rfl, rfl⟩

end Consumes

namespace Check

/-! ## Parts -/

variable {scope : Scope} {records : Registry}

/-- The tokens are a list of parts up to the closing symbol, and the parts have the types. -/
def IsList (scope : Scope) (records : Registry) (close : Symbol) (us : List Token) (tys : List Ty) : Prop :=
  ∃ items : List (List Token × Typed), (∀ item ∈ items, Derivation scope records .select item.1 item.2) ∧
    us = partTokens items ++ [.symbol close] ∧ tys = partTys items

/-- One more part before others. -/
theorem partTokens_cons {item : List Token × Typed} {items : List (List Token × Typed)} (hne : items ≠ []) :
    partTokens (item :: items) = item.1 ++ .symbol .comma :: partTokens items := by
  cases items with
  | nil => exact absurd rfl hne
  | cons => rfl

/-- The tokens are constant bounds and a step, and the bounds count so many indices. -/
def IsBounds (scope : Scope) (records : Registry) (us : List Token) (n : Nat) : Prop :=
  ∃ (lo step hi : List Token) (a b : Int) (w : Option Int),
    us = lo ++ .symbol .colon :: (step ++ .symbol .colon :: hi) ∧
      Derivation scope records .select lo ⟨.int, some a⟩ ∧ Derivation scope records .select step ⟨.int, w⟩ ∧
      Derivation scope records .select hi ⟨.int, some b⟩ ∧ Counts a b n

/-- The tokens are a label or none, and the value or its field has the type. -/
def IsLabel (records : Registry) (source : Ty) (us : List Token) (t : Typed) : Prop :=
  ∃ label ty, us = labelTokens label ∧ LabelledTy records source label ty ∧ t = .of ty

/-- The tokens after a name are nothing or arguments, as the name is of a value or of a function. -/
def IsUse (scope : Scope) (records : Registry) (name : String) (us : List Token) (ty : Ty) : Prop :=
  ∃ b, scope.lookup? name = some b ∧ ty = b.ty ∧ ((b.isFunction = false ∧ us = []) ∨
    (b.isFunction = true ∧ ∃ vs, us = .symbol .openParen :: vs ∧ IsList scope records .closeParen vs b.params))

/-- A list literal of entries is a vector, and one of rows a matrix. -/
theorem IsList.derivation {us : List Token} {tys : List Ty} {ty : Ty}
    (h : IsList scope records .closeBracket us tys) (hty : listTy tys = .ok ty) :
    Derivation scope records .atom (.symbol .openBracket :: us) (.of ty) := by
  obtain ⟨items, hitems, rfl, rfl⟩ := h
  have hlength : (partTys items).length = items.length := List.length_map _
  obtain ⟨hne, ⟨kind, hall, rfl⟩ | ⟨kind, cols, hall, rfl⟩⟩ := listTy_eq_ok_iff.mp hty
  · rw [hlength]
    exact .vector (by simpa [partTys] using hne) hitems hall
  · rw [hlength]
    exact .matrix (by simpa [partTys] using hne) hitems hall

theorem IsUse.derivation {name : String} {us vs : List Token} {source : Ty} {t : Typed}
    (hname : name ≠ "true" ∧ name ≠ "false") (huse : IsUse scope records name us source)
    (hlabel : IsLabel records source vs t) : Derivation scope records .atom (.ident name :: (us ++ vs)) t := by
  obtain ⟨label, ty, rfl, hty, rfl⟩ := hlabel
  obtain ⟨b, hlookup, rfl, ⟨hfunction, rfl⟩ | ⟨hfunction, us, rfl, items, hitems, rfl, htys⟩⟩ := huse
  · exact .name hname hlookup hfunction hty
  · simpa using Derivation.call hname hlookup hfunction hitems htys.symm hty

section
variable {inner : Readers} (hinner : ∀ level, Consumes (inner level) (Derivation scope records level))
include hinner

theorem listTail_consumes (close : Symbol) (fuel : Nat) : Consumes (listTail inner close fuel) fun us tys =>
    ∃ items : List (List Token × Typed), items ≠ [] ∧
      (∀ item ∈ items, Derivation scope records .select item.1 item.2) ∧
      us = partTokens items ++ [.symbol close] ∧ tys = partTys items := by
  induction fuel with
  | zero => exact .throw _
  | succ fuel ih =>
    refine (hinner .select).bind fun us t ht => .branch ?_ (.after ?_)
    · exact .pure ⟨[(us, t)], by simp, by simpa using ht, rfl, rfl⟩
    · refine ih.bind fun vs tys htys => ?_
      obtain ⟨items, hne, hitems, rfl, rfl⟩ := htys
      refine .pure ⟨(us, t) :: items, by simp, List.forall_mem_cons.mpr ⟨ht, hitems⟩, ?_, rfl⟩
      rw [partTokens_cons hne]
      simp

theorem list_consumes (close : Symbol) : Consumes (list inner close) (IsList scope records close) := by
  refine .branch (.pure ⟨[], nofun, rfl, rfl⟩) (.get fun ts => ?_)
  refine (listTail_consumes hinner close _).mono fun us tys h => ?_
  obtain ⟨items, -, hitems⟩ := h
  exact ⟨items, hitems⟩

theorem bounds_consumes : Consumes (bounds inner) (IsBounds scope records) := by
  refine (hinner .select).bind fun lo l hl => .after ?_
  refine (hinner .select).bind fun step s hs => .after ?_
  refine (hinner .select).bind fun hi h hh => ?_
  refine .bind_lift fun _ hlty => .bind_lift fun _ hsty => .bind_lift fun _ hhty => ?_
  obtain ⟨lty, lvalue⟩ := l
  obtain ⟨sty, w⟩ := s
  obtain ⟨hty, hvalue⟩ := h
  obtain rfl : lty = .int := require_eq_ok_iff.mp hlty
  obtain rfl : sty = .int := require_eq_ok_iff.mp hsty
  obtain rfl : hty = .int := require_eq_ok_iff.mp hhty
  cases lvalue with
  | none => exact .throw _
  | some a =>
    cases hvalue with
    | none => exact .throw _
    | some b =>
      refine .lift fun n hn => ⟨lo, step, hi, a, b, w, by simp, hl, hs, hh, indexCount_eq_ok_iff.mp hn⟩

omit hinner in
theorem label_consumes (source : Ty) : Consumes (do
    if ← eat .at then
      return .of (← fieldTy records source (← ident))
    return .of source) (IsLabel records source) := by
  refine .branch ?_ (.pure ⟨none, source, rfl, .value source, rfl⟩)
  refine Consumes.ident.bind fun us label hus => .bind_lift fun ty hty => .pure ?_
  cases hus
  exact ⟨some label, ty, rfl, labelledTy_eq_ok_iff.mp hty, rfl⟩

theorem reference_consumes (name : String) : Consumes (reference scope inner name) (IsUse scope records name) := by
  unfold reference
  cases hlookup : scope.lookup? name with
  | none => exact .throw _
  | some b =>
    refine .branch ?_ ?_
    · cases hfunction : b.isFunction with
      | false => exact .throw _
      | true =>
        refine (list_consumes hinner .closeParen).bind fun us tys htys => .lift fun ty hty => ?_
        obtain ⟨rfl, rfl⟩ := callTy_eq_ok_iff.mp hty
        exact ⟨b, hlookup, rfl, .inr ⟨hfunction, us, by simp, htys⟩⟩
    · cases hfunction : b.isFunction with
      | true => exact .throw _
      | false => exact .pure ⟨b, hlookup, rfl, .inl ⟨hfunction, rfl⟩⟩

/-! ## Levels -/

theorem atom_consumes : Consumes (atom scope records inner) (Derivation scope records .atom) := by
  intro ts t rest h
  -- the first token decides what is read, and is taken in any case
  have hfirst {token : Token} {next : Reader Typed}
      (hnext : Consumes next fun us t => Derivation scope records .atom (token :: us) t)
      {ts : List Token} (heq : next ts = .ok (t, rest)) :
      ∃ us, token :: ts = us ++ rest ∧ Derivation scope records .atom us t := by
    obtain ⟨us, rfl, hd⟩ := hnext ts t rest heq
    exact ⟨token :: us, rfl, hd⟩
  match ts with
  | [] => cases h
  | .int n :: _ => exact hfirst (.pure (.int n)) h
  | .float :: _ => exact hfirst (.pure .float) h
  | .string :: _ => exact hfirst (.pure .string) h
  | .symbol .openParen :: ts =>
    rw [atom_openParen] at h
    refine hfirst ((hinner .select).bind fun us t ht => .after (.pure ?_)) h
    exact .group ht
  | .symbol .openBracket :: ts =>
    rw [atom_openBracket] at h
    refine hfirst ((list_consumes hinner .closeBracket).bind fun us tys htys => .bind_lift fun ty hty => .pure ?_) h
    rw [List.append_nil]
    exact htys.derivation hty
  | .symbol .at :: ts =>
    rw [atom_at] at h
    refine hfirst (Consumes.ident.bind fun _ id hid => .after ((list_consumes hinner .closeBracket).bind
      fun us tys htys => .bind_lift fun ty hty => .pure ?_)) h
    obtain ⟨items, hitems, rfl, rfl⟩ := htys
    obtain ⟨fields, hfields, htys, rfl⟩ := recordTy_eq_ok_iff.mp hty
    cases hid
    simpa using Derivation.record hitems hfields htys
  | .ident name :: ts =>
    rw [atom_ident] at h
    split at h
    · next hbool => exact hfirst (.pure (.bool hbool)) h
    · next hbool =>
      refine hfirst ((reference_consumes hinner name).bind fun us source huse =>
        (label_consumes source).mono fun vs t hlabel => ?_) h
      exact huse.derivation (by simpa using hbool) hlabel

theorem element_consumes : Consumes (element scope records inner) (Derivation scope records .element) := by
  refine (atom_consumes hinner).bind fun ts source hsource => .branch ?_ (.pure ?_)
  · refine (hinner .select).bind fun us index hindex => .after ?_
    refine .bind_lift fun _ hint => .bind_lift fun ty hty => .pure ?_
    obtain ⟨ty', v⟩ := source
    obtain ⟨ity, w⟩ := index
    obtain rfl : ity = .int := require_eq_ok_iff.mp hint
    obtain ⟨kind, n, rfl, rfl⟩ | ⟨kind, rows, cols, rfl, rfl⟩ := entryTy_eq_ok_iff.mp hty
    · exact .entry hsource hindex
    · exact .row hsource hindex
  · rw [List.append_nil]
    exact .lift rfl hsource

theorem slice_consumes : Consumes (slice scope records inner) (Derivation scope records .slice) := by
  refine (element_consumes hinner).bind fun ts source hsource => .branch ?_ (.pure ?_)
  · obtain ⟨ty, v⟩ := source
    cases ty with
    | vector kind length =>
      refine (bounds_consumes hinner).bind fun us n hus => .after (.pure ?_)
      obtain ⟨lo, step, hi, a, b, w, rfl, hlo, hstep, hhi, hcount⟩ := hus
      simpa [braced] using Derivation.slice hsource hlo hstep hhi hcount
    | matrix kind rows cols =>
      refine (bounds_consumes hinner).bind fun us m hus => .after (.after ?_)
      refine (bounds_consumes hinner).bind fun us' n hus' => .after (.pure ?_)
      obtain ⟨lo, step, hi, a, b, w, rfl, hlo, hstep, hhi, hrows⟩ := hus
      obtain ⟨lo', step', hi', a', b', w', rfl, hlo', hstep', hhi', hcols⟩ := hus'
      simpa [braced] using Derivation.window hsource hlo hstep hhi hrows hlo' hstep' hhi' hcols
    | _ => exact .throw _
  · rw [List.append_nil]
    exact .lift rfl hsource

omit hinner

/-- What an operator of a level that groups to the left makes of two operands is derivable at the level. -/
theorem Derivation.left {level operand : Level} {symbols : List Symbol} {combine : Symbol → Typed → Typed → Outcome}
    {symbol : Symbol} {ts us : List Token} {l r t : Typed} (hleft : leftGroup? level = some (symbols, combine))
    (htighter : level.tighter? = some operand) (hsymbol : symbol ∈ symbols) (hl : Derivation scope records level ts l)
    (hr : Derivation scope records operand us r) (hcombine : combine symbol l r = .ok t) :
    Derivation scope records level (ts ++ .symbol symbol :: us) t := by
  cases level with
  | sum =>
    cases hleft
    cases htighter
    obtain ⟨ty, hty, rfl⟩ := operate_eq_ok hcombine
    exact .sum (by simpa using hsymbol) hl hr hty
  | product =>
    cases hleft
    cases htighter
    obtain ⟨ty, hty, rfl⟩ := operate_eq_ok hcombine
    exact .product (by simpa using hsymbol) hl hr hty
  | dot =>
    cases hleft
    cases htighter
    obtain ⟨lty, v⟩ := l
    obtain ⟨rty, w⟩ := r
    obtain ⟨ty, hty, rfl⟩ := exists_of_map_ok hcombine
    obtain ⟨kind, n, rfl, rfl, rfl⟩ := dotProduct_eq_ok_iff.mp hty
    obtain rfl := List.mem_singleton.mp hsymbol
    exact .dot hl hr
  | matmul =>
    cases hleft
    cases htighter
    obtain ⟨ty, hty, rfl⟩ := exists_of_map_ok hcombine
    obtain rfl := List.mem_singleton.mp hsymbol
    exact .matmul hl hr (matrixProduct_eq_ok_iff.mp hty)
  | _ => cases hleft

theorem Derivation.right {level operand : Level} {symbol : Symbol} {combine : Typed → Typed → Outcome}
    {ts us : List Token} {l r t : Typed} (hright : rightGroup? level = some (symbol, combine))
    (htighter : level.tighter? = some operand) (hl : Derivation scope records operand ts l)
    (hr : Derivation scope records level us r) (hcombine : combine l r = .ok t) :
    Derivation scope records level (ts ++ .symbol symbol :: us) t := by
  cases level with
  | power =>
    cases hright
    cases htighter
    obtain ⟨ty, hty, rfl⟩ := operate_eq_ok hcombine
    exact .power hl hr hty
  | and =>
    cases hright
    cases htighter
    obtain ⟨hlty, hrty, rfl⟩ := connective_eq_ok_iff.mp hcombine
    exact .and hl hr hlty hrty
  | or =>
    cases hright
    cases htighter
    obtain ⟨hlty, hrty, rfl⟩ := connective_eq_ok_iff.mp hcombine
    exact .or hl hr hlty hrty
  | _ => cases hright

theorem loop_consumes {level operand : Level} {symbols : List Symbol} {combine : Symbol → Typed → Typed → Outcome}
    (hleft : leftGroup? level = some (symbols, combine)) (htighter : level.tighter? = some operand)
    {r : Reader Typed} (hr : Consumes r (Derivation scope records operand)) (fuel : Nat) {us : List Token} {l : Typed}
    (hl : Derivation scope records level us l) :
    Consumes (loop r symbols combine fuel l) fun vs t => Derivation scope records level (us ++ vs) t := by
  induction fuel generalizing us l with
  | zero => exact .pure (by simpa using hl)
  | succ fuel ih =>
    refine (Consumes.eatOneOf symbols).bind fun _ found hfound => ?_
    obtain ⟨rfl, hsymbol⟩ := hfound
    cases found with
    | none => exact .pure (by simpa using hl)
    | some symbol =>
      refine hr.bind fun vs r hr => .bind_lift fun t ht => ?_
      have hstep := hl.left hleft htighter (hsymbol symbol rfl) hr ht
      exact (ih hstep).mono fun ws t' h => by simpa using h

theorem left_consumes {level operand : Level} {symbols : List Symbol} {combine : Symbol → Typed → Typed → Outcome}
    (hleft : leftGroup? level = some (symbols, combine)) (htighter : level.tighter? = some operand)
    (hoperand : Consumes (grammar scope records inner operand) (Derivation scope records operand)) :
    Consumes (grammar scope records inner level) (Derivation scope records level) := by
  rw [grammar_left hleft htighter]
  exact hoperand.bind fun us first hfirst => .get fun ts =>
    loop_consumes hleft htighter hoperand _ (.lift htighter hfirst)

include hinner

theorem right_consumes {level operand : Level} {symbol : Symbol} {combine : Typed → Typed → Outcome}
    (hright : rightGroup? level = some (symbol, combine)) (htighter : level.tighter? = some operand)
    (hoperand : Consumes (grammar scope records inner operand) (Derivation scope records operand)) :
    Consumes (grammar scope records inner level) (Derivation scope records level) := by
  rw [grammar_right hright htighter]
  refine hoperand.bind fun us l hl => .branch ?_ (.pure ?_)
  · exact (hinner level).bind fun vs r hr => .lift fun t ht => by simpa using hl.right hright htighter hr ht
  · rw [List.append_nil]
    exact .lift htighter hl

omit hinner in
theorem query_consumes (hdot : Consumes (dot scope records inner) (Derivation scope records .dot)) :
    Consumes (query scope records inner) (Derivation scope records .query) := by
  refine hdot.bind fun us operand hoperand => ?_
  intro ts t rest h
  match ts with
  | .query name :: ts =>
    have hread : Consumes (liftM (sizeQuery name operand.ty) : Reader Typed) fun vs t =>
        Derivation scope records .query (us ++ .query name :: vs) t := by
      refine .lift fun t ht => ?_
      obtain ⟨hsize, rfl⟩ := sizeQuery_eq_ok_iff.mp ht
      exact .query hoperand hsize
    obtain ⟨vs, rfl, hd⟩ := hread ts t rest h
    exact ⟨.query name :: vs, rfl, hd⟩
  | [] | .int _ :: _ | .float :: _ | .string :: _ | .ident _ :: _ | .symbol _ :: _ =>
    cases h
    exact ⟨[], rfl, by simpa using .lift rfl hoperand⟩

theorem negate_consumes (hpower : Consumes (power scope records inner) (Derivation scope records .power)) :
    Consumes (negate scope records inner) (Derivation scope records .negate) := by
  refine .branch ((hinner .negate).bind fun us operand hoperand => ?_) (hpower.mono fun us t h => .lift rfl h)
  cases hnumber : operand.ty.isNumber with
  | false => exact .throw _
  | true => exact .pure (by simpa using .negate hoperand hnumber)

omit hinner in
theorem compare_consumes (hsum : Consumes (sum scope records inner) (Derivation scope records .sum)) :
    Consumes (compare scope records inner) (Derivation scope records .compare) := by
  refine hsum.bind fun us l hl => (Consumes.eatOneOf comparisons).bind fun _ found hfound => ?_
  obtain ⟨rfl, hop⟩ := hfound
  cases found with
  | none => exact .pure (by simpa using .lift rfl hl)
  | some op =>
    refine hsum.bind fun vs r hr => ?_
    cases hnumber : l.ty.isNumber with
    | false => exact .throw _
    | true =>
      refine .bind_lift fun _ hsame => .pure ?_
      simpa using Derivation.compare (hop op rfl) hl hr hnumber (require_eq_ok_iff.mp hsame)

omit hinner in
theorem not_consumes (hcompare : Consumes (compare scope records inner) (Derivation scope records .compare)) :
    Consumes (not scope records inner) (Derivation scope records .not) := by
  refine .branch (hcompare.bind fun us operand hoperand => .bind_lift fun _ hbool => .pure ?_)
    (hcompare.mono fun us t h => .lift rfl h)
  simpa using Derivation.not hoperand (require_eq_ok_iff.mp hbool)

omit hinner in
theorem select_consumes (hor : Consumes (or scope records inner) (Derivation scope records .or)) :
    Consumes (select scope records inner) (Derivation scope records .select) := by
  refine hor.bind fun ts condition hcondition => .branch (.bind_lift fun _ hbool => ?_) (.pure ?_)
  · refine hor.bind fun us yes hyes => .after (hor.bind fun vs no hno => .bind_lift fun _ hsame => .pure ?_)
    simpa using Derivation.select hcondition hyes hno (require_eq_ok_iff.mp hbool) (require_eq_ok_iff.mp hsame)
  · rw [List.append_nil]
    exact .lift rfl hcondition

/-- Every level, from the tightest on. -/
theorem grammar_consumes (level : Level) :
    Consumes (grammar scope records inner level) (Derivation scope records level) := by
  have hmatmul : Consumes (grammar scope records inner .matmul) (Derivation scope records .matmul) :=
    left_consumes rfl rfl (slice_consumes hinner)
  have hdot : Consumes (grammar scope records inner .dot) (Derivation scope records .dot) :=
    left_consumes rfl rfl hmatmul
  have hpower : Consumes (grammar scope records inner .power) (Derivation scope records .power) :=
    right_consumes hinner rfl rfl (query_consumes hdot)
  have hproduct : Consumes (grammar scope records inner .product) (Derivation scope records .product) :=
    left_consumes rfl rfl (negate_consumes hinner hpower)
  have hsum : Consumes (grammar scope records inner .sum) (Derivation scope records .sum) :=
    left_consumes rfl rfl hproduct
  have hnot := not_consumes (compare_consumes hsum)
  have hand : Consumes (grammar scope records inner .and) (Derivation scope records .and) :=
    right_consumes hinner rfl rfl hnot
  have hor : Consumes (grammar scope records inner .or) (Derivation scope records .or) :=
    right_consumes hinner rfl rfl hand
  have hselect := select_consumes hor
  cases level with
  | whole => exact hselect.mono fun us t h => .lift rfl h
  | select => exact hselect
  | or => exact hor
  | and => exact hand
  | not => exact hnot
  | compare => exact compare_consumes hsum
  | sum => exact hsum
  | product => exact hproduct
  | negate => exact negate_consumes hinner hpower
  | power => exact hpower
  | query => exact query_consumes hdot
  | dot => exact hdot
  | matmul => exact hmatmul
  | slice => exact slice_consumes hinner
  | element => exact element_consumes hinner
  | atom => exact atom_consumes hinner

end

/-- What is read at a level is derivable at it, by induction on the bound of the nesting. -/
theorem readers_consumes (fuel : Nat) (level : Level) :
    Consumes (readers scope records fuel level) (Derivation scope records level) := by
  induction fuel generalizing level with
  | zero => exact .throw _
  | succ fuel ih => exact grammar_consumes ih level

/-- An accepted text is derivable with the type. -/
theorem derivable_of_check {text : String} {ty : Ty} (h : check scope records text = .ok ty) :
    Derivable scope records text ty := by
  unfold check at h
  obtain ⟨ts, htokens, htyped⟩ := exists_of_bind_ok h
  obtain ⟨⟨t, rest⟩, hread, hall⟩ := exists_of_bind_ok htyped
  obtain ⟨us, rfl, hd⟩ := readers_consumes _ _ ts t rest hread
  cases rest with
  | cons => cases hall
  | nil =>
    cases hall
    exact ⟨us, t.value, by simpa using htokens, hd⟩

/-- Unless folding divides the smallest word by minus one, the checker accepts exactly the texts that the typed
grammar derives, with the type that it derives, and no text has two. -/
theorem check_eq_ok_iff_derivable (scope : Scope) (records : Registry) (text : String)
    (hfault : check scope records text ≠ .error (.fault .remainderOverflow)) :
    (∀ ty, check scope records text = .ok ty ↔ Derivable scope records text ty) ∧
      ∀ ty ty', Derivable scope records text ty → Derivable scope records text ty' → ty = ty' := by
  have haccepts (ty : Ty) (h : Derivable scope records text ty) : check scope records text = .ok ty :=
    h.settles.resolve_right hfault
  refine ⟨fun ty => ⟨derivable_of_check, haccepts ty⟩, fun ty ty' h h' => ?_⟩
  have hsame := (haccepts ty h).symm.trans (haccepts ty' h')
  exact Except.ok.inj hsame

/-- A slice of a vector in scope, and its product with a vector of the same length. -/
theorem derivable_slice_product :
    Derivable (Scope.empty.defineValue "v" (.vector .int 5)) ⟨[]⟩ "v\x7b1:1:2\x7d .* [3, 4] + 1" .int := by
  have hcheck : check (Scope.empty.defineValue "v" (.vector .int 5)) ⟨[]⟩ "v\x7b1:1:2\x7d .* [3, 4] + 1" =
      .ok .int := eq_ok_of_toOption (by decide +kernel)
  exact ((check_eq_ok_iff_derivable _ _ _ (by rw [hcheck]; nofun)).1 .int).mp hcheck

end Check

end TensorFuzz
