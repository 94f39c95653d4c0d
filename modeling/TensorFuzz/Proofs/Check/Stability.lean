import TensorFuzz.Proofs.Check.Acceptance

/-!
# Checking is stable

The checker asks the scope for names of the text only, and asks the registry only for records that it then has to find.
So two readings of one text are followed side by side (`Tracks`), in scopes that answer alike for the names in it: they
come to the same, errors included, but that in a registry that has grown an error may turn into something else.
-/

namespace TensorFuzz

/-! ## Scopes -/

namespace Scope

theorem find?_name_unhidden (bs : List Binding) (name : String) :
    (unhidden bs).find? (·.name == name) = bs.find? (·.name == name) := by
  induction bs with
  | nil => rfl
  | cons b bs ih =>
    rw [unhidden]
    by_cases hname : b.name = name
    · rw [List.find?_cons_of_pos (by simpa using hname), List.find?_cons_of_pos (by simpa using hname)]
    · have hsame : (fun c : Binding => decide ((c.name != b.name) = true ∧ (c.name == name) = true)) =
          fun c => c.name == name := by
        funext c
        by_cases hc : c.name = name <;> simp [hc, Ne.symm hname]
      rw [List.find?_cons_of_neg (by simpa using hname), List.find?_cons_of_neg (by simpa using hname),
        List.find?_filter, hsame, ih]

/-- The binding of a name is the first one of all frames, from the inside out. -/
theorem lookup?_eq_find? (scope : Scope) (name : String) :
    scope.lookup? name = (scope.current ++ scope.outer.flatten).find? (·.name == name) := find?_name_unhidden _ _

theorem lookup?_descend (scope : Scope) (name : String) : scope.descend.lookup? name = scope.lookup? name := by
  rw [lookup?_eq_find?, lookup?_eq_find?]
  rfl

theorem lookup?_define_of_ne (scope : Scope) {b : Binding} {name : String} (hname : b.name ≠ name) :
    (scope.define b).lookup? name = scope.lookup? name := by
  rw [lookup?_eq_find?, lookup?_eq_find?]
  exact List.find?_cons_of_neg (by simpa using hname)

end Scope

/-! ## Registries -/

/-- What is registered stays registered with its fields. -/
def Registry.Grows (records records' : Registry) : Prop :=
  ∀ id fields, records.fields? id = some fields → records'.fields? id = some fields

theorem Registry.grows_of_define {records records' : Registry} {id : String} {fields : List Field}
    (h : records.define id fields = .ok records') : records.Grows records' := by
  intro other fields' hfields
  unfold Registry.define at h
  split at h
  · cases h
  · cases h
    obtain ⟨shape, hshape, rfl⟩ := Option.map_eq_some_iff.mp hfields
    rw [Registry.fields?, List.find?_append, hshape]
    rfl

namespace Check

/-! ## Readings side by side -/

/-- The second scope answers like the first one for the names in the tokens. -/
def AnswersAlike (scope scope' : Scope) (ts : List Token) : Prop :=
  ∀ name, .ident name ∈ ts → scope'.lookup? name = scope.lookup? name

theorem AnswersAlike.of_suffix {scope scope' : Scope} {ts us : List Token} (h : AnswersAlike scope scope' ts)
    (hsuffix : us <:+ ts) : AnswersAlike scope scope' us := fun name hname => h name (hsuffix.subset hname)

/-- The registry is the same, or it may have grown. -/
structure Extends (grown : Prop) (records records' : Registry) : Prop where
  grows : records.Grows records'
  grown_or_eq : grown ∨ records' = records

/-- The second outcome is the first, or comes instead of an error. -/
def Follows (grown : Prop) {α : Type} (o o' : Except Error α) : Prop := o' = o ∨ grown ∧ ∃ e, o = .error e

/-- The second reading of the tokens comes to the same as the first and leaves the same, or comes to something instead
of an error. -/
inductive Tracked (grown : Prop) {α : Type} (ts : List Token) :
    Except Error (α × List Token) → Except Error (α × List Token) → Prop
  | ok {a : α} {rest : List Token} : rest <:+ ts → Tracked grown ts (.ok (a, rest)) (.ok (a, rest))
  | error {e : Error} : Tracked grown ts (.error e) (.error e)
  | instead {e : Error} {o : Except Error (α × List Token)} : grown → Tracked grown ts (.error e) o

/-- The second reader comes to the same as the first, in scopes that answer alike. -/
def Tracks (grown : Prop) (scope scope' : Scope) {α : Type} (r r' : Reader α) : Prop :=
  ∀ ts, AnswersAlike scope scope' ts → Tracked grown ts (r ts) (r' ts)

variable {grown : Prop} {scope scope' : Scope} {records records' : Registry} {α β : Type}

theorem Follows.bind {o o' : Except Error α} (h : Follows grown o o') (f : α → Except Error β) :
    Follows grown (o >>= f) (o' >>= f) := by
  obtain rfl | ⟨hgrown, e, rfl⟩ := h
  · exact .inl rfl
  · exact .inr ⟨hgrown, e, rfl⟩

section
variable {ts us : List Token} {o o' : Except Error (α × List Token)}

theorem Tracked.of_suffix (h : Tracked grown us o o') (hsuffix : us <:+ ts) : Tracked grown ts o o' := by
  cases h with
  | ok hrest => exact .ok (hrest.trans hsuffix)
  | error => exact .error
  | instead hgrown => exact .instead hgrown

theorem Tracked.follows (h : Tracked grown ts o o') : Follows grown o o' := by
  cases h with
  | ok | error => exact .inl rfl
  | instead hgrown => exact .inr ⟨hgrown, _, rfl⟩

end

namespace Tracks

variable {r r' q q' : Reader α}

theorem pure (a : α) : Tracks grown scope scope' (Pure.pure a : Reader α) (Pure.pure a) :=
  fun ts _ => .ok (List.suffix_refl ts)

theorem throw (e : Error) : Tracks grown scope scope' (MonadExcept.throw e : Reader α) (MonadExcept.throw e) :=
  fun _ _ => .error

/-- What asks neither the scope nor the registry. -/
theorem of_consumes {Q : List Token → α → Prop} (h : Consumes r Q) : Tracks grown scope scope' r r := by
  intro ts _
  cases hread : r ts with
  | error e => exact .error
  | ok found =>
    obtain ⟨us, rfl, -⟩ := h ts found.1 found.2 hread
    exact .ok (List.suffix_append us _)

theorem lift {o o' : Except Error α} (h : Follows grown o o') :
    Tracks grown scope scope' (liftM o : Reader α) (liftM o') := by
  intro ts _
  obtain rfl | ⟨hgrown, e, rfl⟩ := h
  · cases o' with
    | ok a => exact .ok (List.suffix_refl ts)
    | error e => exact .error
  · exact .instead hgrown

theorem bind {f f' : α → Reader β} (hr : Tracks grown scope scope' r r')
    (hf : ∀ a, Tracks grown scope scope' (f a) (f' a)) : Tracks grown scope scope' (r >>= f) (r' >>= f') := by
  intro ts hts
  have hread := hr ts hts
  generalize hfirst : r ts = o at hread
  generalize hsecond : r' ts = o' at hread
  cases hread with
  | ok hrest =>
    rw [bind_of_ok hfirst, bind_of_ok hsecond]
    exact (hf _ _ (hts.of_suffix hrest)).of_suffix hrest
  | error =>
    rw [bind_of_error hfirst, bind_of_error hsecond]
    exact .error
  | instead hgrown =>
    rw [bind_of_error hfirst]
    exact .instead hgrown

theorem get {f f' : List Token → Reader β} (hf : ∀ ts, Tracks grown scope scope' (f ts) (f' ts)) :
    Tracks grown scope scope' (MonadState.get >>= f) (MonadState.get >>= f') := fun ts => hf ts ts

/-- What is read behind the first token. -/
theorem behind (h : Tracks grown scope scope' r r') {token : Token} {ts : List Token}
    (hts : AnswersAlike scope scope' (token :: ts)) (hq : q (token :: ts) = r ts) (hq' : q' (token :: ts) = r' ts) :
    Tracked grown (token :: ts) (q (token :: ts)) (q' (token :: ts)) := by
  have hsuffix := List.suffix_cons token ts
  rw [hq, hq']
  exact (h ts (hts.of_suffix hsuffix)).of_suffix hsuffix

theorem branch (symbol : Symbol) (hr : Tracks grown scope scope' r r') (hq : Tracks grown scope scope' q q') :
    Tracks grown scope scope' (do if ← eat symbol then r else q) (do if ← eat symbol then r' else q') := by
  refine (of_consumes (Consumes.eat symbol)).bind fun taken => ?_
  cases taken with
  | true => exact hr
  | false => exact hq

theorem expect (symbol : Symbol) : Tracks grown scope scope' (expect symbol) (Check.expect symbol) :=
  of_consumes (Consumes.expect symbol)

theorem ident : Tracks grown scope scope' ident ident := of_consumes Consumes.ident

theorem lift_same (o : Except Error α) : Tracks grown scope scope' (liftM o : Reader α) (liftM o) := lift (.inl rfl)

end Tracks

/-! ## Rules -/

theorem recordTy_follows (h : Extends grown records records') (id : String) (values : List Ty) :
    Follows grown (recordTy records id values) (recordTy records' id values) := by
  obtain hgrown | rfl := h.grown_or_eq
  · unfold recordTy
    cases hfields : records.fields? id with
    | none => exact .inr ⟨hgrown, _, rfl⟩
    | some fields =>
      rw [h.grows id fields hfields]
      exact .inl rfl
  · exact .inl rfl

theorem fieldTy_follows (h : Extends grown records records') (ty : Ty) (name : String) :
    Follows grown (fieldTy records ty name) (fieldTy records' ty name) := by
  obtain hgrown | rfl := h.grown_or_eq
  · unfold fieldTy Registry.fieldNamed?
    cases ty.recordId? with
    | none => exact .inl rfl
    | some id =>
      dsimp only
      cases hfields : records.fields? id with
      | none => exact .inr ⟨hgrown, _, rfl⟩
      | some fields =>
        rw [h.grows id fields hfields]
        exact .inl rfl
  · exact .inl rfl

section
variable {inner inner' : Readers} (hinner : ∀ level, Tracks grown scope scope' (inner level) (inner' level))
include hinner

/-! ## Parts -/

theorem listTail_tracks (close : Symbol) (fuel : Nat) :
    Tracks grown scope scope' (listTail inner close fuel) (listTail inner' close fuel) := by
  induction fuel with
  | zero => exact .throw _
  | succ fuel ih =>
    refine (hinner .select).bind fun item => .branch close (.pure _) ?_
    exact (Tracks.expect .comma).bind fun _ => ih.bind fun tys => .pure _

theorem list_tracks (close : Symbol) : Tracks grown scope scope' (list inner close) (list inner' close) :=
  .branch close (.pure _) (.get fun _ => listTail_tracks hinner close _)

theorem bounds_tracks : Tracks grown scope scope' (bounds inner) (bounds inner') := by
  refine (hinner .select).bind fun lo => (Tracks.expect .colon).bind fun _ => ?_
  refine (hinner .select).bind fun step => (Tracks.expect .colon).bind fun _ => (hinner .select).bind fun hi => ?_
  refine (Tracks.lift_same _).bind fun _ => (Tracks.lift_same _).bind fun _ => (Tracks.lift_same _).bind fun _ => ?_
  split
  · exact .lift_same _
  · exact .throw _

theorem reference_tracks {name : String} (hname : scope'.lookup? name = scope.lookup? name) :
    Tracks grown scope scope' (reference scope inner name) (reference scope' inner' name) := by
  unfold reference
  rw [hname]
  cases scope.lookup? name with
  | none => exact .throw _
  | some b =>
    dsimp only
    refine .branch .openParen ?_ ?_
    · cases b.isFunction with
      | false => exact .throw _
      | true => exact (list_tracks hinner .closeParen).bind fun tys => .lift_same _
    · cases b.isFunction with
      | false => exact .pure _
      | true => exact .throw _

/-! ## Levels -/

section
variable (hrecords : Extends grown records records')
include hrecords

theorem atom_tracks : Tracks grown scope scope' (atom scope records inner) (atom scope' records' inner') := by
  intro ts hts
  match ts with
  | [] => exact .error
  | .int _ :: _ | .float :: _ | .string :: _ => exact .ok (List.suffix_cons _ _)
  | .query _ :: _ => exact .error
  | .ident name :: ts =>
    refine Tracks.behind ?_ hts (atom_ident name ts) (atom_ident name ts)
    split
    · exact .pure _
    · refine (reference_tracks hinner (hts name List.mem_cons_self)).bind fun source => .branch .at ?_ (.pure _)
      exact Tracks.ident.bind fun label => (Tracks.lift (fieldTy_follows hrecords source label)).bind fun _ => .pure _
  | .symbol symbol :: ts =>
    cases symbol with
    | openParen =>
      refine Tracks.behind ?_ hts (atom_openParen ts) (atom_openParen ts)
      exact (hinner .select).bind fun t => (Tracks.expect .closeParen).bind fun _ => .pure _
    | openBracket =>
      refine Tracks.behind ?_ hts (atom_openBracket ts) (atom_openBracket ts)
      exact (list_tracks hinner .closeBracket).bind fun tys => (Tracks.lift_same _).bind fun _ => .pure _
    | «at» =>
      refine Tracks.behind ?_ hts (atom_at ts) (atom_at ts)
      refine Tracks.ident.bind fun id => (Tracks.expect .openBracket).bind fun _ => ?_
      refine (list_tracks hinner .closeBracket).bind fun tys => ?_
      exact (Tracks.lift (recordTy_follows hrecords id tys)).bind fun _ => .pure _
    | _ => exact .error

theorem element_tracks :
    Tracks grown scope scope' (element scope records inner) (element scope' records' inner') := by
  refine (atom_tracks hinner hrecords).bind fun source => .branch .openBracket ?_ (.pure _)
  refine (hinner .select).bind fun index => (Tracks.expect .closeBracket).bind fun _ => ?_
  exact (Tracks.lift_same _).bind fun _ => (Tracks.lift_same _).bind fun _ => .pure _

theorem slice_tracks : Tracks grown scope scope' (slice scope records inner) (slice scope' records' inner') := by
  refine (element_tracks hinner hrecords).bind fun source => .branch .openBrace ?_ (.pure _)
  have hbounds := bounds_tracks hinner
  split
  · exact hbounds.bind fun count => (Tracks.expect .closeBrace).bind fun _ => .pure _
  · refine hbounds.bind fun rows => (Tracks.expect .closeBrace).bind fun _ => ?_
    refine (Tracks.expect .openBrace).bind fun _ => ?_
    exact hbounds.bind fun cols => (Tracks.expect .closeBrace).bind fun _ => .pure _
  · exact .throw _

end

omit hinner

theorem loop_tracks {operand operand' : Reader Typed} {symbols : List Symbol}
    {combine : Symbol → Typed → Typed → Outcome} (hoperand : Tracks grown scope scope' operand operand') (fuel : Nat)
    (left : Typed) : Tracks grown scope scope' (loop operand symbols combine fuel left)
      (loop operand' symbols combine fuel left) := by
  induction fuel generalizing left with
  | zero => exact .pure _
  | succ fuel ih =>
    refine (Tracks.of_consumes (Consumes.eatOneOf symbols)).bind fun found => ?_
    cases found with
    | none => exact .pure _
    | some symbol => exact hoperand.bind fun right => (Tracks.lift_same _).bind fun t => ih t

theorem left_tracks {level operand : Level} {symbols : List Symbol} {combine : Symbol → Typed → Typed → Outcome}
    (hleft : leftGroup? level = some (symbols, combine)) (htighter : level.tighter? = some operand)
    (hoperand : Tracks grown scope scope' (grammar scope records inner operand)
      (grammar scope' records' inner' operand)) :
    Tracks grown scope scope' (grammar scope records inner level) (grammar scope' records' inner' level) := by
  rw [grammar_left hleft htighter, grammar_left hleft htighter]
  exact hoperand.bind fun first => .get fun _ => loop_tracks hoperand _ first

theorem right_tracks {level operand : Level} {symbol : Symbol} {combine : Typed → Typed → Outcome}
    (hinner : Tracks grown scope scope' (inner level) (inner' level))
    (hright : rightGroup? level = some (symbol, combine)) (htighter : level.tighter? = some operand)
    (hoperand : Tracks grown scope scope' (grammar scope records inner operand)
      (grammar scope' records' inner' operand)) :
    Tracks grown scope scope' (grammar scope records inner level) (grammar scope' records' inner' level) := by
  rw [grammar_right hright htighter, grammar_right hright htighter]
  exact hoperand.bind fun l => .branch symbol (hinner.bind fun r => .lift_same _) (.pure _)

theorem query_tracks (hdot : Tracks grown scope scope' (dot scope records inner) (dot scope' records' inner')) :
    Tracks grown scope scope' (query scope records inner) (query scope' records' inner') := by
  refine hdot.bind fun operand ts hts => ?_
  match ts with
  | .query name :: ts =>
    have hsize : Tracks grown scope scope' (liftM (sizeQuery name operand.ty) : Reader Typed) _ := .lift_same _
    exact hsize.behind hts rfl rfl
  | [] | .int _ :: _ | .float :: _ | .string :: _ | .ident _ :: _ | .symbol _ :: _ => exact .ok (List.suffix_refl _)

theorem negate_tracks (hinner : Tracks grown scope scope' (inner .negate) (inner' .negate))
    (hpower : Tracks grown scope scope' (power scope records inner) (power scope' records' inner')) :
    Tracks grown scope scope' (negate scope records inner) (negate scope' records' inner') := by
  refine .branch .minus (hinner.bind fun operand => ?_) hpower
  cases operand.ty.isNumber with
  | false => exact .throw _
  | true => exact .pure _

theorem compare_tracks (hsum : Tracks grown scope scope' (sum scope records inner) (sum scope' records' inner')) :
    Tracks grown scope scope' (compare scope records inner) (compare scope' records' inner') := by
  refine hsum.bind fun l => (Tracks.of_consumes (Consumes.eatOneOf comparisons)).bind fun found => ?_
  cases found with
  | none => exact .pure _
  | some op =>
    refine hsum.bind fun r => ?_
    cases l.ty.isNumber with
    | false => exact .throw _
    | true => exact (Tracks.lift_same _).bind fun _ => .pure _

theorem not_tracks
    (hcompare : Tracks grown scope scope' (compare scope records inner) (compare scope' records' inner')) :
    Tracks grown scope scope' (not scope records inner) (not scope' records' inner') :=
  .branch .bang (hcompare.bind fun _ => (Tracks.lift_same _).bind fun _ => .pure _) hcompare

theorem select_tracks (hor : Tracks grown scope scope' (or scope records inner) (or scope' records' inner')) :
    Tracks grown scope scope' (select scope records inner) (select scope' records' inner') := by
  refine hor.bind fun condition => .branch .question ?_ (.pure _)
  refine (Tracks.lift_same _).bind fun _ => hor.bind fun yes => (Tracks.expect .colon).bind fun _ => ?_
  exact hor.bind fun no => (Tracks.lift_same _).bind fun _ => .pure _

/-- Every level, from the tightest on. -/
theorem grammar_tracks (hrecords : Extends grown records records')
    (hinner : ∀ level, Tracks grown scope scope' (inner level) (inner' level)) (level : Level) :
    Tracks grown scope scope' (grammar scope records inner level) (grammar scope' records' inner' level) := by
  have hmatmul : Tracks grown scope scope' (grammar scope records inner .matmul)
      (grammar scope' records' inner' .matmul) := left_tracks rfl rfl (slice_tracks hinner hrecords)
  have hdot : Tracks grown scope scope' (grammar scope records inner .dot) (grammar scope' records' inner' .dot) :=
    left_tracks rfl rfl hmatmul
  have hpower : Tracks grown scope scope' (grammar scope records inner .power)
      (grammar scope' records' inner' .power) := right_tracks (hinner _) rfl rfl (query_tracks hdot)
  have hnegate := negate_tracks (hinner _) hpower
  have hproduct : Tracks grown scope scope' (grammar scope records inner .product)
      (grammar scope' records' inner' .product) := left_tracks rfl rfl hnegate
  have hsum : Tracks grown scope scope' (grammar scope records inner .sum) (grammar scope' records' inner' .sum) :=
    left_tracks rfl rfl hproduct
  have hnot := not_tracks (compare_tracks hsum)
  have hand : Tracks grown scope scope' (grammar scope records inner .and) (grammar scope' records' inner' .and) :=
    right_tracks (hinner _) rfl rfl hnot
  have hor : Tracks grown scope scope' (grammar scope records inner .or) (grammar scope' records' inner' .or) :=
    right_tracks (hinner _) rfl rfl hand
  cases level with
  | whole | select => exact select_tracks hor
  | or => exact hor
  | and => exact hand
  | not => exact hnot
  | compare => exact compare_tracks hsum
  | sum => exact hsum
  | product => exact hproduct
  | negate => exact hnegate
  | power => exact hpower
  | query => exact query_tracks hdot
  | dot => exact hdot
  | matmul => exact hmatmul
  | slice => exact slice_tracks hinner hrecords
  | element => exact element_tracks hinner hrecords
  | atom => exact atom_tracks hinner hrecords

end

theorem readers_tracks (hrecords : Extends grown records records') (fuel : Nat) (level : Level) :
    Tracks grown scope scope' (readers scope records fuel level) (readers scope' records' fuel level) := by
  induction fuel generalizing level with
  | zero => exact .throw _
  | succ fuel ih => exact grammar_tracks hrecords ih level

/-! ## Texts -/

/-- The name is an identifier in the text. -/
def Occurs (name text : String) : Prop := ∃ ts, tokens text = .ok ts ∧ .ident name ∈ ts

theorem typeOf_follows {ts : List Token} (hrecords : Extends grown records records')
    (hts : AnswersAlike scope scope' ts) : Follows grown (typeOf scope records ts) (typeOf scope' records' ts) :=
  (readers_tracks hrecords _ .select ts hts).follows

/-- Checking in a scope that answers alike for the names in the text. -/
theorem check_follows {text : String} (hrecords : Extends grown records records')
    (hscope : ∀ name, Occurs name text → scope'.lookup? name = scope.lookup? name) :
    Follows grown (check scope records text) (check scope' records' text) := by
  unfold check
  cases htokens : tokens text with
  | error e =>
    show Follows grown (.error e) (.error e)
    exact .inl rfl
  | ok ts =>
    have hts : AnswersAlike scope scope' ts := fun name hname => hscope name ⟨ts, htokens, hname⟩
    exact (typeOf_follows hrecords hts).bind _

/-- The scopes and registries that blocks opened, names declared that are not in the text, and records registered make
of a scope and a registry. -/
inductive Extension (text : String) (scope : Scope) (records : Registry) : Scope → Registry → Prop
  | refl : Extension text scope records scope records
  | descend {scope' : Scope} {records' : Registry} : Extension text scope records scope' records' →
      Extension text scope records scope'.descend records'
  | define {scope' : Scope} {records' : Registry} {b : Binding} : Extension text scope records scope' records' →
      ¬ Occurs b.name text → Extension text scope records (scope'.define b) records'
  | register {scope' : Scope} {records' records'' : Registry} {id : String} {fields : List Field} :
      Extension text scope records scope' records' → records'.define id fields = .ok records'' →
      Extension text scope records scope' records''

theorem Extension.lookup?_eq {text : String} (h : Extension text scope records scope' records') {name : String}
    (hname : Occurs name text) : scope'.lookup? name = scope.lookup? name := by
  induction h with
  | refl => rfl
  | descend _ ih => exact (Scope.lookup?_descend _ name).trans ih
  | define _ hfree ih => exact (Scope.lookup?_define_of_ne _ fun heq => hfree (heq ▸ hname)).trans ih
  | register _ _ ih => exact ih

theorem Extension.grows {text : String} (h : Extension text scope records scope' records') :
    records.Grows records' := by
  induction h with
  | refl => exact fun _ _ hfields => hfields
  | descend _ ih | define _ _ ih => exact ih
  | register _ hdefine ih =>
    exact fun id fields hfields => Registry.grows_of_define hdefine id fields (ih id fields hfields)

/-- What is accepted stays accepted with its type, however many blocks are opened, names declared that are not in the
text and records registered. And of the scope only what it answers for the names in the text matters, to the type as to
the error. -/
theorem check_stable (scope : Scope) (records : Registry) (text : String) :
    (∀ ty scope' records', check scope records text = .ok ty → Extension text scope records scope' records' →
      check scope' records' text = .ok ty) ∧
    ∀ scope', (∀ name, Occurs name text → scope'.lookup? name = scope.lookup? name) →
      check scope' records text = check scope records text := by
  refine ⟨fun ty scope' records' hcheck hextension => ?_, fun scope' hscope => ?_⟩
  · have hrecords : Extends True records records' := ⟨hextension.grows, .inl trivial⟩
    obtain heq | ⟨-, e, herror⟩ := check_follows hrecords fun name hname => hextension.lookup?_eq hname
    · exact heq.trans hcheck
    · cases hcheck.symm.trans herror
  · have hrecords : Extends False records records := ⟨fun _ _ hfields => hfields, .inr rfl⟩
    exact (check_follows hrecords hscope).resolve_right fun h => h.1

/-- A field of a record is accepted in a block with one more name and with one more record registered, and a name that
is not declared is the same error with one more other name. -/
theorem check_stable_field :
    check ((Scope.empty.defineVariable "packet" (.record "ioNode")).descend.defineValue "x" .float)
      ⟨[⟨"ioNode", [⟨.int, "count", true⟩]⟩, ⟨"ioUnit", []⟩]⟩ "packet@count + 2" = .ok .int ∧
    check (Scope.empty.defineValue "x" .float) ⟨[]⟩ "y + 2" = check .empty ⟨[]⟩ "y + 2" := by
  have hfree {text : String} (ts : List Token) (htokens : (tokens text).toOption = some ts) (hx : .ident "x" ∉ ts) :
      ¬ Occurs "x" text := by
    rintro ⟨us, hus, hmem⟩
    cases (eq_ok_of_toOption htokens).symm.trans hus
    exact hx hmem
  have hfield : ¬ Occurs "x" "packet@count + 2" :=
    hfree [.ident "packet", .symbol .at, .ident "count", .symbol .plus, .int 2] (by decide +kernel) (by decide)
  have hsum : ¬ Occurs "x" "y + 2" := hfree [.ident "y", .symbol .plus, .int 2] (by decide +kernel) (by decide)
  have hcheck : check (Scope.empty.defineVariable "packet" (.record "ioNode"))
      ⟨[⟨"ioNode", [⟨.int, "count", true⟩]⟩]⟩ "packet@count + 2" = .ok .int := eq_ok_of_toOption (by decide +kernel)
  refine ⟨(check_stable _ _ _).1 _ _ _ hcheck ?_, (check_stable _ _ _).2 _ fun name hname => ?_⟩
  · have hdefine : Registry.define ⟨[⟨"ioNode", [⟨.int, "count", true⟩]⟩]⟩ "ioUnit" [] =
        .ok ⟨[⟨"ioNode", [⟨.int, "count", true⟩]⟩, ⟨"ioUnit", []⟩]⟩ := by rfl
    exact .register (.define (.descend .refl) hfield) hdefine
  · refine Scope.lookup?_define_of_ne _ ?_
    rintro rfl
    exact hsum hname

end Check

end TensorFuzz
