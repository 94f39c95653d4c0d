import TensorFuzz.Proofs.Check.Acceptance
import TensorFuzz.Proofs.Check.Cutting

/-!
# Errors of the checker

Reading gives errors of the text only. The bound of the nesting is never met, as each nested part begins behind a token
that was taken. Folding ends in a fault only where the least signed 128-bit word is divided by minus one, and counting
only where no such word holds the difference of the bounds of a slice, or one more.
-/

namespace TensorFuzz.Check

/-- The error is one of the text, and no end of the computation. -/
def Error.Plain (e : Error) : Prop := e ≠ .tooDeep ∧ ∀ cause, e ≠ .fault cause

/-- A product in the tokens divides the constant `-2 ^ 127` by the constant `-1`. -/
def DividesLeast (scope : Scope) (records : Registry) (ts : List Token) : Prop :=
  ∃ (before dividend divisor after : List Token) (ty ty' : Ty),
    ts = before ++ (dividend ++ .symbol .slash :: (divisor ++ after)) ∧
      Derivation scope records .product dividend ⟨ty, some least128⟩ ∧
      Derivation scope records .negate divisor ⟨ty', some (-1)⟩

/-- A range in the tokens begins with these constant bounds and a step. -/
def Bounds (scope : Scope) (records : Registry) (ts : List Token) (a b : Int) : Prop :=
  ∃ (before lo step hi after : List Token) (w : Option Int),
    ts = before ++ (.symbol .openBrace :: (lo ++ .symbol .colon :: (step ++ .symbol .colon :: (hi ++ after)))) ∧
      Derivation scope records .select lo ⟨.int, some a⟩ ∧ Derivation scope records .select step ⟨.int, w⟩ ∧
      Derivation scope records .select hi ⟨.int, some b⟩

/-- An operation that the tokens ask for has a result that no signed 128-bit word holds, and ends in the fault. -/
inductive Overflow (scope : Scope) (records : Registry) (ts : List Token) : Fault → Prop
  | remainder : DividesLeast scope records ts → Overflow scope records ts .remainderOverflow
  | difference {a b : Int} : Bounds scope records ts a b → ¬ Fits128 (b - a) →
      Overflow scope records ts .subtractOverflow
  | count {a b : Int} : Bounds scope records ts a b → Fits128 (b - a) → ¬ Fits128 (b - a + 1) →
      Overflow scope records ts .addOverflow

/-- The error is one of the text, or the fault of an operation that the tokens ask for. -/
def Explained (scope : Scope) (records : Registry) (ts : List Token) (e : Error) : Prop :=
  e.Plain ∨ ∃ fault, e = .fault fault ∧ Overflow scope records ts fault

variable {scope : Scope} {records : Registry}

theorem DividesLeast.of_within {ts us : List Token} (h : DividesLeast scope records us) (hwithin : us <:+: ts) :
    DividesLeast scope records ts := by
  obtain ⟨front, back, rfl⟩ := hwithin
  obtain ⟨before, dividend, divisor, after, ty, ty', rfl, hdividend, hdivisor⟩ := h
  exact ⟨front ++ before, dividend, divisor, after ++ back, ty, ty', by simp, hdividend, hdivisor⟩

theorem Bounds.of_within {ts us : List Token} {a b : Int} (h : Bounds scope records us a b) (hwithin : us <:+: ts) :
    Bounds scope records ts a b := by
  obtain ⟨front, back, rfl⟩ := hwithin
  obtain ⟨before, lo, step, hi, after, w, rfl, hbounds⟩ := h
  exact ⟨front ++ before, lo, step, hi, after ++ back, w, by simp, hbounds⟩

theorem Overflow.of_within {ts us : List Token} {fault : Fault} (h : Overflow scope records us fault)
    (hwithin : us <:+: ts) : Overflow scope records ts fault := by
  cases h with
  | remainder hdivides => exact .remainder (hdivides.of_within hwithin)
  | difference hbounds hlarge => exact .difference (hbounds.of_within hwithin) hlarge
  | count hbounds hfits hlarge => exact .count (hbounds.of_within hwithin) hfits hlarge

theorem Explained.of_suffix {ts us : List Token} {e : Error} (h : Explained scope records us e)
    (hsuffix : us <:+ ts) : Explained scope records ts e :=
  h.imp_right fun ⟨fault, hfault, hoverflow⟩ => ⟨fault, hfault, hoverflow.of_within hsuffix.isInfix⟩

/-! ## Rules -/

/-- Where the rule fails, it is for the text. -/
def Rejects {α : Type} (o : Except Error α) : Prop := ∀ e, o = .error e → e.Plain

section
variable {α β : Type} {o : Except Error α}

theorem Rejects.ok (a : α) : Rejects (.ok a) := fun _ h => nomatch h

theorem Rejects.error {e : Error} (h : e.Plain) : Rejects (.error e : Except Error α) := by
  rintro _ ⟨⟩
  exact h

theorem Rejects.bind {f : α → Except Error β} (h : Rejects o) (hf : ∀ a, Rejects (f a)) : Rejects (o >>= f) := by
  cases o with
  | ok a => exact hf a
  | error e => exact .error (h e rfl)

theorem Rejects.map {f : α → β} (h : Rejects o) : Rejects (f <$> o) := by
  cases o with
  | ok a => exact .ok _
  | error e => exact .error (h e rfl)

end

theorem require_rejects (found expected : Ty) (part : String) : Rejects (require found expected part) := by
  unfold require
  split
  · exact .ok _
  · exact .error ⟨nofun, nofun⟩

theorem arithmetic_rejects (op : Symbol) (left right : Ty) : Rejects (arithmetic op left right) := by
  unfold arithmetic
  split
  · split
    · exact .error ⟨nofun, nofun⟩
    · exact .ok _
  · split
    · exact .ok _
    · exact .error ⟨nofun, nofun⟩

theorem dotProduct_rejects (left right : Ty) : Rejects (dotProduct left right) := by
  unfold dotProduct
  split
  · split
    · exact .ok _
    · exact .error ⟨nofun, nofun⟩
  · exact .error ⟨nofun, nofun⟩

theorem matrixProduct_rejects (left right : Ty) : Rejects (matrixProduct left right) := by
  unfold matrixProduct
  dsimp only
  split
  · exact .ok _
  · exact .error ⟨nofun, nofun⟩

theorem sizeQuery_rejects (name : String) (ty : Ty) : Rejects (sizeQuery name ty) := by
  unfold sizeQuery
  split
  · exact .ok _
  · exact .error ⟨nofun, nofun⟩

/-- Counting that fails with a fault has no word for the difference of the bounds, or none for one more. -/
theorem indexCount_error {lo hi : Int} {e : Error} (h : indexCount lo hi = .error e) :
    e.Plain ∨ (e = .fault .subtractOverflow ∧ ¬ Fits128 (hi - lo)) ∨
      (e = .fault .addOverflow ∧ Fits128 (hi - lo) ∧ ¬ Fits128 (hi - lo + 1)) := by
  unfold indexCount at h
  split at h
  · next hspan =>
    cases h
    exact .inr (.inl ⟨rfl, hspan⟩)
  · next hspan =>
    split at h
    · next hcount =>
      cases h
      exact .inr (.inr ⟨rfl, Decidable.not_not.mp hspan, hcount⟩)
    · split at h
      · cases h
      · cases h
        exact .inl ⟨nofun, nofun⟩

theorem entryTy_rejects (ty : Ty) : Rejects (entryTy ty) := by
  cases ty with
  | vector | matrix => exact .ok _
  | _ => exact .error ⟨nofun, nofun⟩

theorem listTy_rejects (items : List Ty) : Rejects (listTy items) := by
  unfold listTy
  split
  · exact .error ⟨nofun, nofun⟩
  · split
    · exact .error ⟨nofun, nofun⟩
    · split
      · exact .ok _
      · exact .ok _
      · exact .ok _
      · exact .error ⟨nofun, nofun⟩

theorem requireFields_rejects (fields : List Field) (tys : List Ty) : Rejects (requireFields fields tys) := by
  fun_induction requireFields fields tys with
  | case1 field fields ty tys ih => exact (require_rejects _ _ _).bind fun _ => ih
  | case2 => exact .ok _

theorem recordTy_rejects (id : String) (values : List Ty) : Rejects (recordTy records id values) := by
  unfold recordTy
  split
  · exact .error ⟨nofun, nofun⟩
  · split
    · exact .error ⟨nofun, nofun⟩
    · exact (requireFields_rejects _ _).bind fun _ => .ok _

theorem fieldTy_rejects (ty : Ty) (name : String) : Rejects (fieldTy records ty name) := by
  unfold fieldTy
  split
  · exact .error ⟨nofun, nofun⟩
  · split
    · exact .error ⟨nofun, nofun⟩
    · exact .ok _

theorem requireArgs_rejects (function : String) (params args : List Ty) :
    Rejects (requireArgs function params args) := by
  fun_induction requireArgs function params args with
  | case1 param params arg args ih => exact (require_rejects _ _ _).bind fun _ => ih
  | case2 => exact .ok _

theorem callTy_rejects (binding : Binding) (args : List Ty) : Rejects (callTy binding args) := by
  unfold callTy
  split
  · exact .error ⟨nofun, nofun⟩
  · exact (requireArgs_rejects _ _ _).bind fun _ => .ok _

/-- An operation that fails with a fault divides the least word by minus one. -/
theorem operate_error {op : Symbol} {left right : Typed} {e : Error} (h : operate op left right = .error e) :
    e.Plain ∨ e = .fault .remainderOverflow ∧ op = .slash ∧ left.value = some least128 ∧ right.value = some (-1) := by
  unfold operate at h
  cases harithmetic : arithmetic op left.ty right.ty with
  | error e' =>
    rw [harithmetic] at h
    cases h
    exact .inl (arithmetic_rejects _ _ _ _ harithmetic)
  | ok ty =>
    rw [harithmetic] at h
    cases hfold : fold op left.value right.value with
    | ok v =>
      simp only [bind, Except.bind, hfold, pure, Except.pure, reduceCtorEq] at h
    | error e' =>
      simp only [bind, Except.bind, hfold, Except.error.injEq] at h
      subst h
      unfold fold at hfold
      split at hfold
      · next a b ha hb =>
        split at hfold <;> try cases hfold
        split at hfold
        · cases hfold
        · split at hfold
          · next hleast =>
            cases hfold
            exact .inr ⟨rfl, rfl, by rw [ha, hleast.1], by rw [hb, hleast.2]⟩
          · cases hfold
      · cases hfold

theorem operate_rejects {op : Symbol} (hop : op ≠ .slash) (left right : Typed) : Rejects (operate op left right) :=
  fun _ h => (operate_error h).resolve_right fun hslash => hop hslash.2.1

theorem connective_rejects (op : Symbol) (left right : Typed) : Rejects (connective op left right) :=
  (require_rejects _ _ _).bind fun _ => (require_rejects _ _ _).bind fun _ => .ok _

/-! ## Readers -/

/-- The reading takes some of the tokens off the front, or ends in an error that the tokens explain, with those seen
before them. -/
def ReadsOff (scope : Scope) (records : Registry) {α : Type} (seen ts : List Token) :
    Except Error (α × List Token) → Prop
  | .ok (_, rest) => rest <:+ ts
  | .error e => Explained scope records (seen ++ ts) e

theorem ReadsOff.of_suffix {α : Type} {ts us : List Token} {o : Except Error (α × List Token)}
    (h : ReadsOff scope records [] us o) (hsuffix : us <:+ ts) : ReadsOff scope records [] ts o := by
  cases o with
  | ok found => exact List.IsSuffix.trans h hsuffix
  | error e => exact Explained.of_suffix h hsuffix

/-- Tokens seen before explain no less. -/
theorem ReadsOff.seen {α : Type} {ts : List Token} {o : Except Error (α × List Token)}
    (h : ReadsOff scope records [] ts o) (us : List Token) : ReadsOff scope records us ts o := by
  cases o with
  | ok found => exact h
  | error e => exact Explained.of_suffix h (List.suffix_append us ts)

/-- Behind the tokens seen, on less than `n` others the reader takes some off the front, or gives an error that they and
those seen explain. -/
def GuardedBehind (scope : Scope) (records : Registry) (seen : List Token) (n : Nat) {α : Type} (r : Reader α) : Prop :=
  ∀ ts, ts.length < n → ReadsOff scope records seen ts (r ts)

/-- On less than `n` tokens the reader takes some off the front, or gives an error that they explain. -/
abbrev Guarded (scope : Scope) (records : Registry) (n : Nat) {α : Type} (r : Reader α) : Prop :=
  GuardedBehind scope records [] n r

namespace GuardedBehind

variable {α β : Type} {n : Nat} {us : List Token} {o : Except Error α}

theorem throw {e : Error} (h : e.Plain) : GuardedBehind scope records us n (MonadExcept.throw e : Reader α) :=
  fun _ _ => .inl h

theorem lift (h : ∀ e, o = .error e → ∀ ts, Explained scope records (us ++ ts) e) :
    GuardedBehind scope records us n (liftM o : Reader α) := by
  intro ts _
  cases o with
  | ok a => exact List.suffix_refl ts
  | error e => exact h e rfl ts

theorem bind_lift {f : α → Reader β} (h : Rejects o)
    (hf : ∀ a, o = .ok a → GuardedBehind scope records us n (f a)) :
    GuardedBehind scope records us n ((liftM o : Reader α) >>= f) := by
  intro ts hts
  cases o with
  | ok a => exact hf a rfl ts hts
  | error e => exact .inl (h e rfl)

theorem bind {r : Reader α} {f : α → Reader β} (hr : GuardedBehind scope records us n r)
    (hf : ∀ a, GuardedBehind scope records [] n (f a)) : GuardedBehind scope records us n (r >>= f) := by
  intro ts hts
  have hread := hr ts hts
  cases h : r ts with
  | error e =>
    rw [h] at hread
    rw [bind_of_error h]
    exact hread
  | ok found =>
    obtain ⟨a, mid⟩ := found
    rw [h] at hread
    rw [bind_of_ok h]
    have hlength : mid.length ≤ ts.length := List.IsSuffix.length_le hread
    exact ((hf a mid (by omega)).of_suffix hread).seen us

end GuardedBehind

namespace Guarded

variable {α β : Type} {n : Nat} {r : Reader α}

theorem mono {m : Nat} (h : Guarded scope records n r) (hle : m ≤ n) : Guarded scope records m r :=
  fun ts hts => h ts (by omega)

theorem seen (h : Guarded scope records n r) (us : List Token) : GuardedBehind scope records us n r :=
  fun ts hts => (h ts hts).seen us

theorem pure (a : α) : Guarded scope records n (Pure.pure a : Reader α) := fun ts _ => List.suffix_refl ts

theorem throw {e : Error} (h : e.Plain) : Guarded scope records n (MonadExcept.throw e : Reader α) :=
  GuardedBehind.throw h

theorem lift {o : Except Error α} (h : Rejects o) : Guarded scope records n (liftM o : Reader α) :=
  GuardedBehind.lift fun e he _ => .inl (h e he)

theorem bind {f : α → Reader β} (hr : Guarded scope records n r) (hf : ∀ a, Guarded scope records n (f a)) :
    Guarded scope records n (r >>= f) := GuardedBehind.bind hr hf

/-- What is taken off the front is seen by what is read next. -/
theorem bindBehind {P : List Token → α → Prop} {us : List Token} {f : α → Reader β} (hr : Guarded scope records n r)
    (hconsumes : Consumes r P) (hf : ∀ vs a, P vs a → GuardedBehind scope records (us ++ vs) n (f a)) :
    GuardedBehind scope records us n (r >>= f) := by
  intro ts hts
  have hread := hr.seen us ts hts
  cases h : r ts with
  | error e =>
    rw [h] at hread
    rw [bind_of_error h]
    exact hread
  | ok found =>
    obtain ⟨a, mid⟩ := found
    obtain ⟨vs, rfl, hP⟩ := hconsumes ts a mid h
    rw [bind_of_ok h]
    rw [List.length_append] at hts
    have hnext := hf vs a hP mid (by omega)
    cases hmid : f a mid with
    | ok found =>
      rw [hmid] at hnext
      exact List.IsSuffix.trans hnext (List.suffix_append vs mid)
    | error e =>
      rw [hmid] at hnext
      have hexplained : Explained scope records (us ++ vs ++ mid) e := hnext
      rwa [List.append_assoc] at hexplained

theorem get {f : List Token → Reader β} (hf : ∀ ts, ts.length < n → Guarded scope records (ts.length + 1) (f ts)) :
    Guarded scope records n (MonadState.get >>= f) := fun ts hts => hf ts hts ts (Nat.lt_succ_self _)

/-- What is read behind the first token is read off fewer tokens. -/
theorem behindToken {r' : Reader α} {token : Token} (h : GuardedBehind scope records [token] n r) {ts : List Token}
    (hts : (token :: ts).length < n + 1) (heq : r' (token :: ts) = r ts) :
    ReadsOff scope records [] (token :: ts) (r' (token :: ts)) := by
  have hread := h ts (by simpa using hts)
  rw [heq]
  cases hr : r ts with
  | ok found =>
    rw [hr] at hread
    exact List.IsSuffix.trans hread (List.suffix_cons _ _)
  | error e =>
    rw [hr] at hread
    exact hread

theorem behind {r' : Reader α} (h : Guarded scope records n r) {token : Token} {ts : List Token}
    (hts : (token :: ts).length < n + 1) (heq : r' (token :: ts) = r ts) :
    ReadsOff scope records [] (token :: ts) (r' (token :: ts)) := behindToken (h.seen [token]) hts heq

theorem branchBehind {symbol : Symbol} {taken other : Reader α}
    (htaken : GuardedBehind scope records [.symbol symbol] n taken) (hother : Guarded scope records (n + 1) other) :
    Guarded scope records (n + 1) (do if ← eat symbol then taken else other) := by
  intro ts hts
  by_cases hhead : ts.head? = some (.symbol symbol)
  · obtain ⟨ts, rfl⟩ := List.head?_eq_some_iff.mp hhead
    exact behindToken htaken hts (bind_of_ok (eat_same symbol ts))
  · rw [bind_of_ok (eat_other hhead)]
    exact hother ts hts

theorem branch {symbol : Symbol} {taken other : Reader α} (htaken : Guarded scope records n taken)
    (hother : Guarded scope records (n + 1) other) :
    Guarded scope records (n + 1) (do if ← eat symbol then taken else other) :=
  .branchBehind (htaken.seen _) hother

/-- What is read behind an expected symbol is read off fewer tokens. -/
theorem afterBehind {symbol : Symbol} {next : Reader α} (h : GuardedBehind scope records [.symbol symbol] n next) :
    Guarded scope records (n + 1) (do expect symbol; next) := by
  intro ts hts
  by_cases hhead : ts.head? = some (.symbol symbol)
  · obtain ⟨ts, rfl⟩ := List.head?_eq_some_iff.mp hhead
    exact behindToken h hts (bind_of_ok (expect_same symbol ts))
  · have hexpect : expect symbol ts = .error (.expectedSymbol symbol ts.head?) := by
      rw [expect, bind_of_ok (eat_other hhead)]
      rfl
    rw [bind_of_error hexpect]
    exact .inl (by simp [Error.Plain])

theorem after {symbol : Symbol} {next : Reader α} (h : Guarded scope records n next) :
    Guarded scope records (n + 1) (do expect symbol; next) := .afterBehind (h.seen _)

theorem expect (symbol : Symbol) : Guarded scope records n (expect symbol) := by
  intro ts hts
  have hafter : Guarded scope records (n + 1) (do Check.expect symbol; Pure.pure ()) := .after (.pure ())
  have h := hafter ts (by omega)
  rwa [bind_pure_unit] at h

theorem ident : Guarded scope records n ident := by
  intro ts _
  match ts with
  | [] | .int _ :: _ | .float :: _ | .string :: _ | .query _ :: _ | .symbol _ :: _ => exact .inl ⟨nofun, nofun⟩
  | .ident _ :: _ => exact List.suffix_cons _ _

end Guarded

section
variable {n : Nat} {inner : Readers} (hinner : ∀ level, Guarded scope records n (inner level))
include hinner

/-! ## Parts -/

/-- Each part of a list but the last takes a comma, so that the bound of the parts is not met before the tokens end. -/
theorem listTail_guarded (close : Symbol) (fuel : Nat) (hfuel : fuel ≤ n) :
    Guarded scope records fuel (listTail inner close fuel) := by
  induction fuel with
  | zero => exact fun ts hts => absurd hts (Nat.not_lt_zero _)
  | succ fuel ih =>
    refine ((hinner .select).mono hfuel).bind fun item => .branch (.pure _) (.after ?_)
    exact (ih (by omega)).bind fun tys => .pure _

theorem list_guarded (close : Symbol) : Guarded scope records n (list inner close) := by
  intro ts hts
  refine Guarded.branch (n := ts.length) (.pure _) (.get fun us hus => ?_) ts (Nat.lt_succ_self _)
  exact listTail_guarded hinner close _ (by omega)

/-- Behind the brace that opens a range: where counting ends in a fault, its bounds are read. -/
theorem bounds_guarded (hconsumes : ∀ level, Consumes (inner level) (Derivation scope records level)) :
    GuardedBehind scope records [.symbol .openBrace] n (bounds inner) := by
  refine (hinner .select).bindBehind (hconsumes .select) fun lo l hl => ?_
  refine (Guarded.expect .colon).bindBehind (.expect .colon) fun _ _ hcolon => ?_
  cases hcolon
  refine (hinner .select).bindBehind (hconsumes .select) fun step s hs => ?_
  refine (Guarded.expect .colon).bindBehind (.expect .colon) fun _ _ hcolon => ?_
  cases hcolon
  refine (hinner .select).bindBehind (hconsumes .select) fun hi h hh => ?_
  obtain ⟨lty, lvalue⟩ := l
  obtain ⟨sty, w⟩ := s
  obtain ⟨hty, hvalue⟩ := h
  refine .bind_lift (require_rejects _ _ _) fun _ hint => .bind_lift (require_rejects _ _ _) fun _ hint' =>
    .bind_lift (require_rejects _ _ _) fun _ hint'' => ?_
  obtain rfl : lty = .int := require_eq_ok_iff.mp hint
  obtain rfl : sty = .int := require_eq_ok_iff.mp hint'
  obtain rfl : hty = .int := require_eq_ok_iff.mp hint''
  cases lvalue with
  | none => exact .throw ⟨nofun, nofun⟩
  | some a =>
    cases hvalue with
    | none => exact .throw ⟨nofun, nofun⟩
    | some b =>
      refine .lift fun e he rest => ?_
      have hbounds : Bounds scope records
          ([.symbol .openBrace] ++ lo ++ [.symbol .colon] ++ step ++ [.symbol .colon] ++ hi ++ rest) a b :=
        ⟨[], lo, step, hi, rest, w, by simp, hl, hs, hh⟩
      obtain hplain | ⟨rfl, hspan⟩ | ⟨rfl, hspan, hcount⟩ := indexCount_error he
      · exact .inl hplain
      · exact .inr ⟨_, rfl, .difference hbounds hspan⟩
      · exact .inr ⟨_, rfl, .count hbounds hspan hcount⟩

theorem reference_guarded (name : String) : Guarded scope records (n + 1) (reference scope inner name) := by
  unfold reference
  split
  · exact .throw ⟨nofun, nofun⟩
  · next b _ =>
    refine .branch ?_ ?_
    · cases b.isFunction with
      | false => exact .throw ⟨nofun, nofun⟩
      | true => exact (list_guarded hinner _).bind fun tys => .lift (callTy_rejects _ _)
    · cases b.isFunction with
      | false => exact .pure _
      | true => exact .throw ⟨nofun, nofun⟩

omit hinner in
theorem label_guarded (source : Ty) : Guarded scope records (n + 1) (do
    if ← eat .at then
      return .of (← fieldTy records source (← ident))
    return .of source : Reader Typed) :=
  .branch (Guarded.ident.bind fun _ => (Guarded.lift (fieldTy_rejects _ _)).bind fun _ => .pure _) (.pure _)

/-! ## Levels -/

theorem atom_guarded : Guarded scope records (n + 1) (atom scope records inner) := by
  intro ts hts
  match ts with
  | [] => exact .inl ⟨nofun, nofun⟩
  | .int _ :: _ | .float :: _ | .string :: _ => exact List.suffix_cons _ _
  | .query _ :: _ => exact .inl ⟨nofun, nofun⟩
  | .ident name :: ts =>
    have hname : Guarded scope records n (do
        if name = "true" ∨ name = "false" then return .of .bool
        let ty ← reference scope inner name
        if ← eat .at then
          return .of (← fieldTy records ty (← ident))
        return .of ty : Reader Typed) := by
      split
      · exact .pure _
      · refine ((reference_guarded hinner name).bind fun source => ?_).mono (Nat.le_succ n)
        exact label_guarded source
    exact hname.behind hts (atom_ident name ts)
  | .symbol symbol :: ts =>
    cases symbol with
    | openParen =>
      exact ((hinner .select).bind fun t => (Guarded.expect _).bind fun _ => .pure _).behind hts (atom_openParen ts)
    | openBracket =>
      refine Guarded.behind ((list_guarded hinner _).bind fun tys => ?_) hts (atom_openBracket ts)
      exact (Guarded.lift (listTy_rejects _)).bind fun _ => .pure _
    | «at» =>
      refine Guarded.behind (Guarded.ident.bind fun id => (Guarded.expect _).bind fun _ => ?_) hts (atom_at ts)
      exact (list_guarded hinner _).bind fun tys => (Guarded.lift (recordTy_rejects _ _)).bind fun _ => .pure _
    | _ => exact .inl ⟨nofun, nofun⟩

theorem element_guarded : Guarded scope records (n + 1) (element scope records inner) := by
  refine (atom_guarded hinner).bind fun source => .branch ?_ (.pure _)
  refine (hinner .select).bind fun index => (Guarded.expect _).bind fun _ => ?_
  exact (Guarded.lift (require_rejects _ _ _)).bind fun _ => (Guarded.lift (entryTy_rejects _)).bind fun _ => .pure _

theorem slice_guarded (hconsumes : ∀ level, Consumes (inner level) (Derivation scope records level)) :
    Guarded scope records (n + 1) (slice scope records inner) := by
  refine (element_guarded hinner).bind fun source => .branchBehind ?_ (.pure _)
  have hbounds := bounds_guarded hinner hconsumes
  split
  · exact hbounds.bind fun count => (Guarded.expect _).bind fun _ => .pure _
  · refine hbounds.bind fun rows => (Guarded.expect _).bind fun _ => Guarded.mono (.afterBehind ?_) (Nat.le_succ n)
    exact hbounds.bind fun cols => (Guarded.expect _).bind fun _ => .pure _
  · exact .throw ⟨nofun, nofun⟩

omit hinner

theorem eatOneOf_bind_guarded {α : Type} {symbols : List Symbol} {f : Option Symbol → Reader α}
    (htaken : ∀ symbol ∈ symbols, Guarded scope records n (f (some symbol)))
    (hother : Guarded scope records (n + 1) (f none)) : Guarded scope records (n + 1) (eatOneOf symbols >>= f) := by
  intro ts hts
  by_cases hhead : ∃ symbol ∈ symbols, ts.head? = some (.symbol symbol)
  · obtain ⟨symbol, hsymbol, hhead⟩ := hhead
    obtain ⟨ts, rfl⟩ := List.head?_eq_some_iff.mp hhead
    exact (htaken symbol hsymbol).behind hts (bind_of_ok (eatOneOf_same hsymbol))
  · rw [bind_of_ok (eatOneOf_other fun symbol hsymbol heq => hhead ⟨symbol, hsymbol, heq⟩)]
    exact hother ts hts

theorem loop_guarded {operand : Reader Typed} {symbols : List Symbol} {combine : Symbol → Typed → Typed → Outcome}
    (hoperand : Guarded scope records n operand) (hcombine : ∀ symbol ∈ symbols, ∀ l r, Rejects (combine symbol l r))
    (fuel : Nat) (left : Typed) : Guarded scope records n (loop operand symbols combine fuel left) := by
  induction fuel generalizing left with
  | zero => exact .pure _
  | succ fuel ih =>
    refine (Guarded.mono (n := n + 1) ?_ (Nat.le_succ n))
    refine eatOneOf_bind_guarded (fun symbol hsymbol => ?_) (.pure _)
    exact hoperand.bind fun right => (Guarded.lift (hcombine symbol hsymbol left right)).bind fun t => ih t

theorem left_guarded {level operand : Level} {symbols : List Symbol} {combine : Symbol → Typed → Typed → Outcome}
    (hleft : leftGroup? level = some (symbols, combine)) (htighter : level.tighter? = some operand)
    (hoperand : Guarded scope records n (grammar scope records inner operand))
    (hcombine : ∀ symbol ∈ symbols, ∀ l r, Rejects (combine symbol l r)) :
    Guarded scope records n (grammar scope records inner level) := by
  rw [grammar_left hleft htighter]
  refine hoperand.bind fun first => .get fun ts hts => ?_
  exact (loop_guarded hoperand hcombine _ first).mono (by omega)

/-- The factors read so far stand before the tokens: where the next operation divides the least word by minus one, they
are the dividend. -/
theorem productLoop_explained {operand : Reader Typed} (hoperand : Guarded scope records n operand)
    (hconsumes : Consumes operand (Derivation scope records .negate)) (fuel : Nat) {us ts : List Token} {left : Typed}
    (hleft : Derivation scope records .product us left) (hts : ts.length < n) {e : Error}
    (h : loop operand [.star, .slash] operate fuel left ts = .error e) : Explained scope records (us ++ ts) e := by
  induction fuel generalizing us ts left with
  | zero => cases h
  | succ fuel ih =>
    by_cases hhead : ∃ symbol ∈ [Symbol.star, .slash], ts.head? = some (.symbol symbol)
    · obtain ⟨symbol, hsymbol, hhead⟩ := hhead
      obtain ⟨ts, rfl⟩ := List.head?_eq_some_iff.mp hhead
      rw [List.length_cons] at hts
      rw [loop, bind_of_ok (eatOneOf_same hsymbol)] at h
      cases hright : operand ts with
      | error e' =>
        have hread := hoperand ts (by omega)
        rw [hright] at hread
        cases (bind_of_error hright).symm.trans h
        exact Explained.of_suffix hread ⟨us ++ [.symbol symbol], by simp⟩
      | ok found =>
        obtain ⟨right, rest⟩ := found
        obtain ⟨vs, rfl, hd⟩ := hconsumes ts right rest hright
        replace h := (bind_of_ok hright).symm.trans h
        cases hcombine : operate symbol left right with
        | error e' =>
          rw [hcombine] at h
          cases h
          refine (operate_error hcombine).imp_right ?_
          rintro ⟨rfl, rfl, hleast, hminus⟩
          obtain ⟨ty, v⟩ := left
          obtain ⟨ty', w⟩ := right
          obtain rfl : v = some least128 := hleast
          obtain rfl : w = some (-1) := hminus
          exact ⟨_, rfl, .remainder ⟨[], us, vs, rest, ty, ty', by simp, hleft, hd⟩⟩
        | ok t =>
          rw [hcombine] at h
          rw [List.length_append] at hts
          have hstep : Derivation scope records .product (us ++ .symbol symbol :: vs) t :=
            hleft.left rfl rfl hsymbol hd hcombine
          simpa using ih hstep (by omega) h
    · rw [loop, bind_of_ok (eatOneOf_other fun symbol hsymbol heq => hhead ⟨symbol, hsymbol, heq⟩)] at h
      cases h

/-- The product is the one level whose operators may end in the fault. -/
theorem product_guarded (hnegate : Guarded scope records n (grammar scope records inner .negate))
    (hconsumes : Consumes (grammar scope records inner .negate) (Derivation scope records .negate)) :
    Guarded scope records n (grammar scope records inner .product) := by
  have hleft : leftGroup? .product = some ([.star, .slash], operate) := rfl
  rw [grammar_left hleft rfl]
  intro ts hts
  cases hfirst : grammar scope records inner .negate ts with
  | error e =>
    have hread := hnegate ts hts
    rw [hfirst] at hread
    rw [bind_of_error hfirst]
    exact hread
  | ok found =>
    obtain ⟨first, rest⟩ := found
    obtain ⟨us, rfl, hd⟩ := hconsumes ts first rest hfirst
    rw [bind_of_ok hfirst]
    have hproduct : Derivation scope records .product us first := .lift rfl hd
    rw [List.length_append] at hts
    show ReadsOff scope records [] (us ++ rest)
      (loop (grammar scope records inner .negate) [.star, .slash] operate rest.length first rest)
    cases hloop : loop (grammar scope records inner .negate) [.star, .slash] operate rest.length first rest with
    | error e => exact productLoop_explained hnegate hconsumes rest.length hproduct (by omega) hloop
    | ok found =>
      obtain ⟨vs, rfl, -⟩ := loop_consumes hleft rfl hconsumes _ hproduct _ _ _ hloop
      exact ⟨us ++ vs, List.append_assoc ..⟩

theorem right_guarded {level operand : Level} {symbol : Symbol} {combine : Typed → Typed → Outcome}
    (hinner : Guarded scope records n (inner level)) (hright : rightGroup? level = some (symbol, combine))
    (htighter : level.tighter? = some operand)
    (hoperand : Guarded scope records (n + 1) (grammar scope records inner operand))
    (hcombine : ∀ l r, Rejects (combine l r)) : Guarded scope records (n + 1) (grammar scope records inner level) := by
  rw [grammar_right hright htighter]
  exact hoperand.bind fun l => .branch (hinner.bind fun r => .lift (hcombine l r)) (.pure _)

theorem query_guarded (hdot : Guarded scope records n (dot scope records inner)) :
    Guarded scope records n (query scope records inner) := by
  refine hdot.bind fun operand => ?_
  intro ts hts
  match ts with
  | .query name :: ts =>
    have hsize : Guarded scope records (n + 1) (liftM (sizeQuery name operand.ty) : Reader Typed) :=
      .lift (sizeQuery_rejects name operand.ty)
    exact (hsize ts (by rw [List.length_cons] at hts; omega)).of_suffix (List.suffix_cons _ _)
  | [] | .int _ :: _ | .float :: _ | .string :: _ | .ident _ :: _ | .symbol _ :: _ => exact List.suffix_refl _

theorem negate_guarded (hinner : Guarded scope records n (inner .negate))
    (hpower : Guarded scope records (n + 1) (power scope records inner)) :
    Guarded scope records (n + 1) (negate scope records inner) := by
  refine .branch (hinner.bind fun operand => ?_) hpower
  cases operand.ty.isNumber with
  | false => exact .throw ⟨nofun, nofun⟩
  | true => exact .pure _

theorem compare_guarded (hsum : Guarded scope records n (sum scope records inner)) :
    Guarded scope records n (compare scope records inner) := by
  refine hsum.bind fun l => Guarded.mono (n := n + 1) (eatOneOf_bind_guarded (fun op _ => ?_) (.pure _)) (Nat.le_succ n)
  refine hsum.bind fun r => ?_
  cases l.ty.isNumber with
  | false => exact .throw ⟨nofun, nofun⟩
  | true => exact (Guarded.lift (require_rejects _ _ _)).bind fun _ => .pure _

theorem not_guarded (hcompare : Guarded scope records (n + 1) (compare scope records inner)) :
    Guarded scope records (n + 1) (not scope records inner) := by
  refine .branch (.mono ?_ (Nat.le_succ n)) hcompare
  exact hcompare.bind fun operand => (Guarded.lift (require_rejects _ _ _)).bind fun _ => .pure _

theorem select_guarded (hor : Guarded scope records (n + 1) (or scope records inner)) :
    Guarded scope records (n + 1) (select scope records inner) := by
  refine hor.bind fun condition => .branch (.mono ?_ (Nat.le_succ n)) (.pure _)
  refine (Guarded.lift (require_rejects _ _ _)).bind fun _ => hor.bind fun yes => (Guarded.expect .colon).bind fun _ => ?_
  exact hor.bind fun no => (Guarded.lift (require_rejects _ _ _)).bind fun _ => .pure _

/-- Every level, from the tightest on. -/
theorem grammar_guarded (hinner : ∀ level, Guarded scope records n (inner level))
    (hconsumes : ∀ level, Consumes (inner level) (Derivation scope records level)) (level : Level) :
    Guarded scope records (n + 1) (grammar scope records inner level) := by
  have hmatmul : Guarded scope records (n + 1) (grammar scope records inner .matmul) :=
    left_guarded rfl rfl (slice_guarded hinner hconsumes) fun _ _ _ _ => (matrixProduct_rejects _ _).map
  have hdot : Guarded scope records (n + 1) (grammar scope records inner .dot) :=
    left_guarded rfl rfl hmatmul fun _ _ _ _ => (dotProduct_rejects _ _).map
  have hpower : Guarded scope records (n + 1) (grammar scope records inner .power) :=
    right_guarded (hinner _) rfl rfl (query_guarded hdot) (operate_rejects (by decide))
  have hnegate := negate_guarded (hinner _) hpower
  have hproduct := product_guarded hnegate (grammar_consumes hconsumes .negate)
  have hsum : Guarded scope records (n + 1) (grammar scope records inner .sum) := by
    refine left_guarded rfl rfl hproduct fun symbol hsymbol => operate_rejects ?_
    rintro rfl
    revert hsymbol
    decide
  have hnot := not_guarded (compare_guarded hsum)
  have hand : Guarded scope records (n + 1) (grammar scope records inner .and) :=
    right_guarded (hinner _) rfl rfl hnot (connective_rejects _)
  have hor : Guarded scope records (n + 1) (grammar scope records inner .or) :=
    right_guarded (hinner _) rfl rfl hand (connective_rejects _)
  cases level with
  | whole | select => exact select_guarded hor
  | or => exact hor
  | and => exact hand
  | not => exact hnot
  | compare => exact compare_guarded hsum
  | sum => exact hsum
  | product => exact hproduct
  | negate => exact hnegate
  | power => exact hpower
  | query => exact query_guarded hdot
  | dot => exact hdot
  | matmul => exact hmatmul
  | slice => exact slice_guarded hinner hconsumes
  | element => exact element_guarded hinner
  | atom => exact atom_guarded hinner

end

/-- A bound of the nesting that exceeds the number of tokens is never met. -/
theorem readers_guarded (fuel : Nat) (level : Level) :
    Guarded scope records fuel (readers scope records fuel level) := by
  induction fuel generalizing level with
  | zero => exact fun ts hts => absurd hts (Nat.not_lt_zero _)
  | succ fuel ih => exact grammar_guarded ih (readers_consumes fuel) level

/-! ## Texts -/

theorem integer_rejects (digits after : List Char) : Rejects (next.integer digits after) := by
  unfold next.integer
  dsimp only
  split
  · exact .ok _
  · exact .error ⟨nofun, nofun⟩

theorem next_rejects (whole : String) (text : List Char) : Rejects (next whole text) := by
  match text with
  | [] => exact .error (by simp [Error.Plain])
  | c :: rest =>
    rw [next]
    dsimp only
    split
    · split
      · split
        · exact .ok _
        · exact integer_rejects _ _
      · exact integer_rejects _ _
    · split
      · split
        · exact .error (by simp [Error.Plain])
        · exact .ok _
      · split
        · exact .ok _
        · split
          · exact .ok _
          · split
            · exact .ok _
            · exact .error (by simp [Error.Plain])

theorem scan_rejects (whole : String) (fuel : Nat) (done : List Token) (text : List Char) (hfuel : text.length < fuel) :
    Rejects (scan whole fuel done text) := by
  induction fuel generalizing done text with
  | zero => exact absurd hfuel (Nat.not_lt_zero _)
  | succ fuel ih =>
    have hdrop := length_dropWhile_le Text.isBlank text
    rw [scan]
    split
    · exact .ok _
    · next c rest htext =>
      rw [htext] at hdrop
      split
      · next token after hnext =>
        have hlength := next_length hnext
        exact ih _ _ (by omega)
      · next e hnext => exact .error (next_rejects whole _ e hnext)

theorem tokens_rejects (text : String) : Rejects (tokens text) := scan_rejects _ _ _ _ (Nat.lt_succ_self _)

/-- The errors of a text: what is wrong with it, or the fault of an operation that its tokens ask for. -/
theorem check_error {text : String} {e : Error} (h : check scope records text = .error e) :
    e.Plain ∨ ∃ fault ts, e = .fault fault ∧ tokens text = .ok ts ∧ Overflow scope records ts fault := by
  unfold check at h
  cases htokens : tokens text with
  | error e' =>
    rw [htokens] at h
    cases h
    exact .inl (tokens_rejects text e htokens)
  | ok ts =>
    have hread : ReadsOff scope records [] ts (typeOf scope records ts) :=
      readers_guarded _ .select ts (Nat.lt_succ_self ts.length)
    rw [htokens] at h
    change (typeOf scope records ts >>= _) = .error e at h
    cases htyped : typeOf scope records ts with
    | error e' =>
      rw [htyped] at h hread
      cases h
      exact hread.imp_right fun ⟨fault, hfault, hoverflow⟩ => ⟨fault, ts, hfault, rfl, hoverflow⟩
    | ok found =>
      obtain ⟨typed, rest⟩ := found
      rw [htyped] at h
      cases rest with
      | nil => cases h
      | cons =>
        cases h
        exact .inl ⟨nofun, nofun⟩

end TensorFuzz.Check
