import TensorFuzz.Proofs.Check.Errors
import TensorFuzz.Proofs.Check.Offsets
import TensorFuzz.Proofs.Engine.Valid

/-!
# Safety of the checker

What a reader gives is within the words that hold it: types have no dimension of zero where those in scope have none,
and constants fit signed 128-bit words unless the least of them is divided by minus one. A slice that is accepted counts
the indices from its first bound to its last; where no word holds what is computed for that, checking ends in a fault.
-/

namespace TensorFuzz

open Check

/-! ## Types without a zero -/

/-- No dimension of the type is zero. -/
def Ty.Positive (ty : Ty) : Prop := ∀ n ∈ ty.dimensions, 1 ≤ n

instance (ty : Ty) : Decidable ty.Positive := inferInstanceAs (Decidable (∀ n ∈ ty.dimensions, 1 ≤ n))

def Scope.Positive (scope : Scope) : Prop := ∀ frame ∈ scope.frames, ∀ b ∈ frame, b.ty.Positive

instance (scope : Scope) : Decidable scope.Positive :=
  inferInstanceAs (Decidable (∀ frame ∈ scope.frames, ∀ b ∈ frame, b.ty.Positive))

def Registry.Positive (records : Registry) : Prop :=
  ∀ shape ∈ records.shapes, ∀ field ∈ shape.fields, field.ty.Positive

instance (records : Registry) : Decidable records.Positive :=
  inferInstanceAs (Decidable (∀ shape ∈ records.shapes, ∀ field ∈ shape.fields, field.ty.Positive))

@[simp]
theorem Ty.positive_vector {kind : Kind} {n : Nat} : (Ty.vector kind n).Positive ↔ 1 ≤ n := List.forall_mem_singleton

@[simp]
theorem Ty.positive_matrix {kind : Kind} {rows cols : Nat} :
    (Ty.matrix kind rows cols).Positive ↔ 1 ≤ rows ∧ 1 ≤ cols := by
  simp [Ty.Positive, Ty.dimensions]

@[simp]
theorem Ty.positive_ofKind (kind : Kind) : (Ty.ofKind kind).Positive := by
  cases kind <;> exact List.forall_mem_nil _

theorem Scope.Positive.lookup? {scope : Scope} (h : scope.Positive) {name : String} {b : Binding}
    (hlookup : scope.lookup? name = some b) : b.ty.Positive := by
  obtain ⟨frame, hframe, hb⟩ := Scope.exists_frame_of_mem_visible (List.mem_of_find?_eq_some hlookup)
  exact h frame hframe b hb

theorem Registry.Positive.fieldNamed? {records : Registry} (h : records.Positive) {id label : String} {field : Field}
    (hfield : records.fieldNamed? id label = some field) : field.ty.Positive := by
  unfold Registry.fieldNamed? Registry.fields? at hfield
  cases hshape : records.shapes.find? (·.id == id) with
  | none => simp [hshape] at hfield
  | some shape =>
    have hmem : field ∈ shape.fields := List.mem_of_find?_eq_some (by simpa [hshape] using hfield)
    exact h shape (List.mem_of_find?_eq_some hshape) field hmem

namespace Check

theorem sliceTy_positive (kind : Kind) {n : Nat} (hn : 1 ≤ n) : (sliceTy kind n).Positive := by
  unfold sliceTy
  split
  · exact Ty.positive_ofKind kind
  · exact Ty.positive_vector.mpr hn

theorem windowTy_positive (kind : Kind) {rows cols : Nat} (hrows : 1 ≤ rows) (hcols : 1 ≤ cols) :
    (windowTy kind rows cols).Positive := by
  unfold windowTy
  split
  · exact sliceTy_positive kind hcols
  · exact Ty.positive_matrix.mpr ⟨hrows, hcols⟩

theorem OperationTy.positive {op : Symbol} {left right ty : Ty} (h : OperationTy op left right ty)
    (hleft : left.Positive) (hright : right.Positive) : ty.Positive := by
  cases h with
  | same | elementRight => exact hleft
  | elementLeft => exact hright

theorem ProductTy.positive {left right ty : Ty} (h : ProductTy left right ty) (hleft : left.Positive)
    (hright : right.Positive) : ty.Positive := by
  cases h with
  | vectors => exact Ty.positive_ofKind _
  | _ => simp_all

theorem LabelledTy.positive {records : Registry} (hrecords : records.Positive) {source ty : Ty} {label : Option String}
    (h : LabelledTy records source label ty) (hsource : source.Positive) : ty.Positive := by
  cases h with
  | value => exact hsource
  | field hfield => exact hrecords.fieldNamed? hfield

variable {scope : Scope} {records : Registry}

/-- By induction on the derivation: types are made of those of the parts, or of the number of parts or indices. -/
theorem Derivation.positive (hscope : scope.Positive) (hrecords : records.Positive) {level : Level} {ts : List Token}
    {t : Typed} (h : Derivation scope records level ts t) : t.ty.Positive := by
  induction h with
  | lift _ _ ih | group _ ih => exact ih
  | int | float | string | bool | record | query | compare | not | and | or => exact List.forall_mem_nil _
  | vector hne => exact Ty.positive_vector.mpr (List.length_pos_iff.mpr hne)
  | @matrix items kind cols hne _ htys ih =>
    obtain ⟨item, hitem⟩ := List.exists_mem_of_ne_nil items hne
    have hrow : item.2.ty = .vector kind cols := htys _ (List.mem_map_of_mem hitem)
    have hcols := ih item hitem
    rw [hrow, Ty.positive_vector] at hcols
    exact Ty.positive_matrix.mpr ⟨List.length_pos_iff.mpr hne, hcols⟩
  | name _ hlookup _ hlabel | call _ hlookup _ _ _ hlabel => exact hlabel.positive hrecords (hscope.lookup? hlookup)
  | entry | dot => exact Ty.positive_ofKind _
  | row _ _ ih => exact Ty.positive_vector.mpr (Ty.positive_matrix.mp ih).2
  | slice _ _ _ _ hcount => exact sliceTy_positive _ hcount.2.1
  | window _ _ _ _ hrows _ _ _ hcols => exact windowTy_positive _ hrows.2.1 hcols.2.1
  | matmul _ _ hproduct ihl ihr => exact hproduct.positive ihl ihr
  | power _ _ hty ihl ihr | product _ _ _ hty ihl ihr | sum _ _ _ hty ihl ihr => exact hty.positive ihl ihr
  | negate _ _ ih => exact ih
  | select _ _ _ _ _ _ ihy => exact ihy

/-! ## Constants that fit -/

/-- The constants of the tokens are folded within signed 128-bit words: these hold the integers among them, and the
least word is not divided by minus one. -/
structure Foldable (scope : Scope) (records : Registry) (ts : List Token) : Prop where
  integers : ∀ n : Nat, .int n ∈ ts → Fits128 n
  divisions : ¬ DividesLeast scope records ts

theorem Foldable.of_within {ts us : List Token} (h : Foldable scope records ts) (hwithin : us <:+: ts) :
    Foldable scope records us where
  integers n hn := h.integers n (hwithin.subset hn)
  divisions hdivides := h.divisions (hdivides.of_within hwithin)

/-- The value of a constant part fits a signed 128-bit word. -/
def Typed.Fits (t : Typed) : Prop := ∀ v, t.value = some v → Fits128 v

/-- The least word by minus one is the one quotient of words that no word holds. -/
theorem fits_ediv {a b : Int} (hdvd : b ∣ a) (ha : Fits128 a) (hleast : ¬ (a = least128 ∧ b = -1)) :
    Fits128 (a / b) := by
  have hmul : a / b * b = a := Int.ediv_mul_cancel hdvd
  have hle := Int.natAbs_ediv_le_natAbs a b
  generalize a / b = quotient at hmul hle ⊢
  unfold Fits128 least128 at *
  by_cases hlarge : quotient = 0x80000000000000000000000000000000
  · subst hlarge
    omega
  · omega

theorem constantValue_fits {op : Symbol} {l r : Option Int} (hl : ∀ v, l = some v → Fits128 v)
    (hleast : ¬ (op = .slash ∧ l = some least128 ∧ r = some (-1))) {v : Int} (h : constantValue op l r = some v) :
    Fits128 v := by
  have hchecked {n : Int} (h : checked128 n = some v) : Fits128 v := by
    obtain ⟨hfits, rfl⟩ := checked128_eq_some_iff.mp h
    exact hfits
  cases l with
  | none => cases h
  | some a =>
    cases r with
    | none => cases h
    | some b =>
      cases op with
      | plus | minus | star => exact hchecked h
      | slash =>
        obtain ⟨⟨-, hdvd⟩, hv⟩ := Option.ite_none_right_eq_some.mp h
        cases hv
        exact fits_ediv hdvd (hl a rfl) fun ⟨ha, hb⟩ => hleast ⟨rfl, by rw [ha], by rw [hb]⟩
      | caret =>
        obtain ⟨-, hv⟩ := Option.ite_none_right_eq_some.mp h
        exact hchecked hv
      | _ => cases h

/-- By induction on the derivation: folding keeps a value only where a word holds it, but for the one quotient. -/
theorem Derivation.fits {level : Level} {ts : List Token} {t : Typed} (h : Derivation scope records level ts t)
    (hts : Foldable scope records ts) : t.Fits := by
  induction h with
  | lift _ _ ih => exact ih hts
  | int n =>
    rintro _ ⟨⟩
    exact hts.integers n (List.mem_singleton_self _)
  | group _ ih => exact ih (hts.of_within ⟨[.symbol .openParen], [.symbol .closeParen], rfl⟩)
  | float | string | bool | vector | matrix | record | name | call | entry | row | slice | window | matmul | dot | query
  | compare | not | and | or | select => exact nofun
  | @power ts us l r ty hl hr _ ihl =>
    have hfits := ihl (hts.of_within (List.prefix_append _ _).isInfix)
    have hslash : ¬ (Symbol.caret = .slash ∧ l.value = some least128 ∧ r.value = some (-1)) := nofun
    exact fun v => constantValue_fits hfits hslash
  | @sum op ts us l r ty hop hl hr _ ihl =>
    have hfits := ihl (hts.of_within (List.prefix_append _ _).isInfix)
    refine fun v => constantValue_fits hfits ?_
    rintro ⟨rfl, -⟩
    revert hop
    decide
  | @product op ts us l r ty _ hl hr _ ihl =>
    have hfits := ihl (hts.of_within (List.prefix_append _ _).isInfix)
    refine fun v => constantValue_fits hfits ?_
    obtain ⟨lty, a⟩ := l
    obtain ⟨rty, b⟩ := r
    rintro ⟨rfl, rfl, rfl⟩
    exact hts.divisions ⟨[], ts, us, [], lty, rty, by simp, hl, hr⟩
  | negate =>
    intro v hv
    obtain ⟨w, -, hw⟩ := Option.bind_eq_some_iff.mp hv
    obtain ⟨hfits, rfl⟩ := checked128_eq_some_iff.mp hw
    exact hfits

/-! ## Slices -/

/-- The tokens are a range in braces with constant bounds in order and a step, and there are so many indices from one
bound to the other. -/
def MeasuredRange (scope : Scope) (records : Registry) (us : List Token) (n : Nat) : Prop :=
  ∃ (lo step hi : List Token) (a b : Int) (w : Option Int), us = braced lo step hi ∧
    Derivation scope records .select lo ⟨.int, some a⟩ ∧ Derivation scope records .select step ⟨.int, w⟩ ∧
    Derivation scope records .select hi ⟨.int, some b⟩ ∧ a ≤ b ∧ (n : Int) = b - a + 1

theorem measuredRange {lo step hi : List Token} {a b : Int} {w : Option Int} {n : Nat}
    (hlo : Derivation scope records .select lo ⟨.int, some a⟩) (hstep : Derivation scope records .select step ⟨.int, w⟩)
    (hhi : Derivation scope records .select hi ⟨.int, some b⟩) (hcount : Counts a b n) :
    MeasuredRange scope records (braced lo step hi) n := by
  obtain ⟨hn, hpos, -⟩ := hcount
  exact ⟨lo, step, hi, a, b, w, rfl, hlo, hstep, hhi, by omega, hn⟩

/-- What is read at the level of slices: a part that is not sliced, or a vector behind which a range stands, or a matrix
with two; the ranges give the dimensions. -/
inductive MeasuredSlice (scope : Scope) (records : Registry) : List Token → Typed → Prop
  | whole {us : List Token} {t : Typed} : Derivation scope records .element us t → MeasuredSlice scope records us t
  | entries {ts us : List Token} {v : Option Int} {kind : Kind} {length n : Nat} :
      Derivation scope records .element ts ⟨.vector kind length, v⟩ → MeasuredRange scope records us n →
      MeasuredSlice scope records (ts ++ us) (.of (sliceTy kind n))
  | window {ts us vs : List Token} {v : Option Int} {kind : Kind} {rows cols m n : Nat} :
      Derivation scope records .element ts ⟨.matrix kind rows cols, v⟩ → MeasuredRange scope records us m →
      MeasuredRange scope records vs n →
      MeasuredSlice scope records (ts ++ (us ++ vs)) (.of (windowTy kind m n))

theorem Derivation.measured {us : List Token} {t : Typed} (h : Derivation scope records .slice us t) :
    MeasuredSlice scope records us t := by
  cases h with
  | lift htighter hd =>
    cases htighter
    exact .whole hd
  | slice hd hlo hstep hhi hcount => exact .entries hd (measuredRange hlo hstep hhi hcount)
  | window hd hlo hstep hhi hrows hlo' hstep' hhi' hcols =>
    exact .window hd (measuredRange hlo hstep hhi hrows) (measuredRange hlo' hstep' hhi' hcols)

/-! ## Texts -/

theorem next_integer_fits {whole : String} {text rest : List Char} {n : Nat} (h : next whole text = .ok (.int n, rest)) :
    Fits128 n := by
  have hinteger {digits after : List Char} (h : next.integer digits after = .ok (.int n, rest)) : Fits128 n := by
    unfold next.integer at h
    dsimp only at h
    split at h
    · next hfits =>
      cases h
      exact hfits
    · cases h
  match text with
  | [] => cases h
  | c :: text =>
    rw [next] at h
    dsimp only at h
    split at h
    · split at h
      · split at h
        · cases h
        · exact hinteger h
      · exact hinteger h
    · split at h
      · split at h <;> cases h
      · split at h
        · cases h
        · split at h
          · cases h
          · split at h <;> cases h

theorem scan_integers_fit {whole : String} {fuel : Nat} {done ts : List Token} {text : List Char}
    (h : scan whole fuel done text = .ok ts) (hdone : ∀ n : Nat, .int n ∈ done → Fits128 n) :
    ∀ n : Nat, .int n ∈ ts → Fits128 n := by
  induction fuel generalizing done text with
  | zero => cases h
  | succ fuel ih =>
    rw [scan] at h
    split at h
    · cases h
      simpa using hdone
    · split at h
      · next token after hnext =>
        refine ih h fun n hn => ?_
        rcases List.mem_cons.mp hn with rfl | hn
        · exact next_integer_fits hnext
        · exact hdone n hn
      · cases h

theorem tokens_integers_fit {text : String} {ts : List Token} (h : tokens text = .ok ts) :
    ∀ n : Nat, .int n ∈ ts → Fits128 n := scan_integers_fit h nofun

/-- On any text, against types without a zero: cutting the text never cuts outside it or inside a character, and
checking comes to a type or to an error of the text, but for the faults of dividing the least signed 128-bit word by
minus one and of counting between bounds whose difference, or one more, no such word holds. Whatever is read of it on the
way has a type without a zero; its value fits a word unless the tokens hold such a division; and a slice has constant
bounds in order and counts the indices from one to the other. -/
theorem check_safe {scope : Scope} {records : Registry} (hscope : scope.Positive) (hrecords : records.Positive)
    (text : String) :
    tokensByOffset text = some (tokens text) ∧
    (∀ e, check scope records text = .error e →
      e.Plain ∨ ∃ fault ts, e = .fault fault ∧ tokens text = .ok ts ∧ Overflow scope records ts fault) ∧
    ∀ before ts, tokens text = .ok (before ++ ts) → ∀ fuel level t rest,
      readers scope records fuel level ts = .ok (t, rest) →
        t.ty.Positive ∧ (¬ DividesLeast scope records ts → t.Fits) ∧
          (level = .slice → ∃ us, ts = us ++ rest ∧ MeasuredSlice scope records us t) := by
  refine ⟨tokensByOffset_eq text, fun e => check_error, fun before ts htokens fuel level t rest hread => ?_⟩
  obtain ⟨us, rfl, hd⟩ := readers_consumes fuel level ts t rest hread
  refine ⟨hd.positive hscope hrecords, fun hdivides => hd.fits ?_, ?_⟩
  · have hfit : Foldable scope records (us ++ rest) :=
      ⟨fun n hn => tokens_integers_fit htokens n (List.mem_append_right before hn), hdivides⟩
    exact hfit.of_within (List.prefix_append us rest).isInfix
  · rintro rfl
    exact ⟨us, rfl, hd.measured⟩

/-- A slice of a vector in scope from index four to six, which are three. -/
theorem check_safe_slice :
    let scope := Scope.empty.defineValue "v" (.vector .int 9)
    let text := "v\x7b4 : 1 : 3 * 2\x7d"
    let tokens := [.ident "v", .symbol .openBrace, .int 4, .symbol .colon, .int 1, .symbol .colon, .int 3, .symbol .star,
      .int 2, .symbol .closeBrace]
    (scope.Positive ∧ Registry.empty.Positive ∧ Check.tokens text = .ok tokens) ∧
      tokensByOffset text = some (.ok tokens) ∧ MeasuredSlice scope .empty tokens (.of (.vector .int 3)) := by
  intro scope text tokens
  have hscope : scope.Positive := by decide
  have hrecords : Registry.empty.Positive := by decide
  have htokens : Check.tokens text = .ok tokens := eq_ok_of_toOption (by decide +kernel)
  have hread : readers scope .empty 11 .slice tokens = .ok (.of (.vector .int 3), []) :=
    eq_ok_of_toOption (by decide +kernel)
  obtain ⟨hoffsets, -, hreaders⟩ := check_safe hscope hrecords text
  obtain ⟨us, hus, hslice⟩ := (hreaders [] tokens htokens 11 .slice _ [] hread).2.2 rfl
  rw [List.append_nil] at hus
  exact ⟨⟨hscope, hrecords, htokens⟩, htokens ▸ hoffsets, hus ▸ hslice⟩

end Check

end TensorFuzz
