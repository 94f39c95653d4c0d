import TensorFuzz.Proofs.Check.Derivation
import TensorFuzz.Proofs.Check.Reading
import TensorFuzz.Proofs.Expr.Operations

/-!
# Computed rules

The rules that the readers compute succeed exactly where the relations of the typed grammar hold, and with the types
and values that these say. Only folding may end in a fault: where the smallest word is divided by minus one.
-/

namespace TensorFuzz.Check

variable {op : Symbol} {records : Registry} {left right ty : Ty}

/-! ## Types -/

theorem require_eq_ok_iff {found expected : Ty} {part : String} :
    require found expected part = .ok () ↔ found = expected := by
  unfold require
  split <;> simp_all

theorem operationTy_of_broadcasts (h : broadcasts op left right = true) :
    OperationTy op left right (if left.isTensor then left else right) := by
  have hright (hop : op = .plus ∨ op = .star ∨ op = .caret)
      (h : left.isTensor = true ∧ right = left.elementTy) :
      OperationTy op left right (if left.isTensor then left else right) := by
    obtain ⟨htensor, rfl⟩ := h
    rw [if_pos htensor]
    exact .elementRight hop htensor
  have hleft (hop : op = .plus ∨ op = .star) (h : right.isTensor = true ∧ left = right.elementTy) :
      OperationTy op left right (if left.isTensor then left else right) := by
    obtain ⟨htensor, rfl⟩ := h
    have hscalar : right.elementTy.isTensor = false := by
      cases right with
      | vector kind | matrix kind => cases kind <;> rfl
      | _ => cases htensor
    rw [if_neg (by simp [hscalar])]
    exact .elementLeft hop htensor
  cases op with
  | plus | star =>
    rcases Bool.or_eq_true_iff.mp h with h | h
    · exact hright (by decide) (by simpa using h)
    · exact hleft (by decide) (by simpa using h)
  | caret => exact hright (by decide) (by simpa [broadcasts] using h)
  | _ => cases h

theorem arithmetic_eq_ok_iff : arithmetic op left right = .ok ty ↔ OperationTy op left right ty := by
  constructor
  · intro h
    unfold arithmetic at h
    split at h
    · next hsame =>
      obtain ⟨rfl, harithmetic⟩ := hsame
      split at h
      · cases h
      · next hslash =>
        cases h
        exact .same harithmetic fun hop => by simpa [hop] using hslash
    · split at h
      · next hbroadcasts =>
        cases h
        exact operationTy_of_broadcasts hbroadcasts
      · cases h
  · rintro (⟨harithmetic, hslash⟩ | ⟨hop, htensor⟩ | ⟨hop, htensor⟩)
    · exact arithmetic_same harithmetic hslash
    · exact arithmetic_element_right htensor hop
    · exact arithmetic_element_left htensor hop

theorem dotProduct_eq_ok_iff : dotProduct left right = .ok ty ↔
    ∃ kind n, left = .vector kind n ∧ right = .vector kind n ∧ ty = .ofKind kind := by
  constructor
  · intro h
    unfold dotProduct at h
    split at h
    · split at h
      · next k n l m hsame =>
        obtain ⟨rfl, rfl⟩ := hsame
        cases h
        exact ⟨k, n, rfl, rfl, rfl⟩
      · cases h
    · cases h
  · rintro ⟨kind, n, rfl, rfl, rfl⟩
    exact if_pos ⟨rfl, rfl⟩

theorem matrixProduct_eq_ok_iff : matrixProduct left right = .ok ty ↔ ProductTy left right ty := by
  constructor
  · intro h
    unfold matrixProduct at h
    cases left <;> cases right <;> dsimp only at h <;> try cases h
    all_goals
      split at h
      · next hresult =>
        split at hresult
        · next hsame =>
          obtain ⟨rfl, rfl⟩ := hsame
          cases hresult
          cases h
          constructor
        · cases hresult
      · cases h
  · rintro (_ | _ | _ | _) <;> simp [matrixProduct]

theorem sizeQuery_eq_ok_iff {name : String} {t : Typed} :
    sizeQuery name ty = .ok t ↔ HasSize name ty ∧ t = .of .int := by
  constructor
  · intro h
    unfold sizeQuery at h
    split at h
    · next hsize =>
      cases h
      refine ⟨?_, rfl⟩
      rcases hsize with ⟨rfl, hvector⟩ | ⟨rfl | rfl, hmatrix⟩
      · cases ty <;> first | exact .dimension | cases hvector
      · cases ty <;> first | exact .rows | cases hmatrix
      · cases ty <;> first | exact .cols | cases hmatrix
    · cases h
  · rintro ⟨_ | _ | _, rfl⟩ <;> exact if_pos (by simp [Ty.isVector, Ty.isMatrix])

theorem indexCount_eq_ok_iff {lo hi : Int} {n : Nat} : indexCount lo hi = .ok n ↔ Counts lo hi n := by
  refine ⟨fun h => ?_, fun ⟨hn, hpos, hlimit⟩ => indexCount_eq hpos hlimit hn.symm⟩
  unfold indexCount at h
  split at h
  · cases h
  · split at h
    · cases h
    · split at h
      · cases h
        exact ⟨by omega, by omega, by omega⟩
      · cases h

theorem entryTy_eq_ok_iff {source : Ty} : entryTy source = .ok ty ↔
    (∃ kind n, source = .vector kind n ∧ ty = .ofKind kind) ∨
      ∃ kind rows cols, source = .matrix kind rows cols ∧ ty = .vector kind cols := by
  constructor
  · intro h
    cases source with
    | vector kind n =>
      cases h
      exact .inl ⟨kind, n, rfl, rfl⟩
    | matrix kind rows cols =>
      cases h
      exact .inr ⟨kind, rows, cols, rfl, rfl⟩
    | _ => cases h
  · rintro (⟨kind, n, rfl, rfl⟩ | ⟨kind, rows, cols, rfl, rfl⟩) <;> rfl

/-- A list of parts of one type. -/
theorem listTy_of_all {first : Ty} {tys : List Ty} : tys ≠ [] → (∀ t ∈ tys, t = first) →
    listTy tys = match first with
      | .int => .ok (.vector .int tys.length)
      | .float => .ok (.vector .float tys.length)
      | .vector kind cols => .ok (.matrix kind tys.length cols)
      | ty => .error (.listOf ty) := by
  intro hne hall
  cases tys with
  | nil => exact absurd rfl hne
  | cons t tys =>
    obtain rfl := hall t List.mem_cons_self
    have hsame : (t :: tys).find? (· ≠ t) = none := by simpa using hall
    cases t <;> simp only [listTy, hsame]

theorem exists_of_listTy {tys : List Ty} (h : listTy tys = .ok ty) : ∃ first, tys ≠ [] ∧ ∀ t ∈ tys, t = first := by
  cases tys with
  | nil => cases h
  | cons first tys =>
    refine ⟨first, by simp, fun t ht => ?_⟩
    cases hfind : (first :: tys).find? (· ≠ first) with
    | some other => simp only [listTy, hfind, reduceCtorEq] at h
    | none => simpa using List.find?_eq_none.mp hfind t ht

theorem listTy_eq_ok_iff {tys : List Ty} : listTy tys = .ok ty ↔ tys ≠ [] ∧
    ((∃ kind, (∀ t ∈ tys, t = .ofKind kind) ∧ ty = .vector kind tys.length) ∨
      ∃ kind cols, (∀ t ∈ tys, t = .vector kind cols) ∧ ty = .matrix kind tys.length cols) := by
  constructor
  · intro h
    obtain ⟨first, hne, hall⟩ := exists_of_listTy h
    refine ⟨hne, ?_⟩
    rw [listTy_of_all hne hall] at h
    cases first with
    | int =>
      cases h
      exact .inl ⟨.int, hall, rfl⟩
    | float =>
      cases h
      exact .inl ⟨.float, hall, rfl⟩
    | vector kind cols =>
      cases h
      exact .inr ⟨kind, cols, hall, rfl⟩
    | _ => cases h
  · rintro ⟨hne, ⟨kind, hall, rfl⟩ | ⟨kind, cols, hall, rfl⟩⟩
    · rw [listTy_of_all hne hall]
      cases kind <;> rfl
    · rw [listTy_of_all hne hall]

theorem requireFields_eq_ok_iff {fields : List Field} {tys : List Ty} (hlength : fields.length = tys.length) :
    requireFields fields tys = .ok () ↔ tys = fields.map (·.ty) := by
  induction fields generalizing tys with
  | nil =>
    cases tys with
    | nil => simp [requireFields]
    | cons => cases hlength
  | cons field fields ih =>
    cases tys with
    | nil => cases hlength
    | cons ty tys =>
      have hfield : require ty field.ty field.name = .ok () ↔ ty = field.ty := require_eq_ok_iff
      rw [requireFields, List.map_cons, List.cons.injEq, ← ih (by simpa using hlength), ← hfield]
      cases require ty field.ty field.name <;> simp [bind, Except.bind]

theorem recordTy_eq_ok_iff {id : String} {tys : List Ty} : recordTy records id tys = .ok ty ↔
    ∃ fields, records.fields? id = some fields ∧ tys = fields.map (·.ty) ∧ ty = .record id := by
  unfold recordTy
  cases hfields : records.fields? id with
  | none => simp
  | some fields =>
    by_cases hlength : fields.length = tys.length
    · simp only [hlength, ne_eq, not_true_eq_false, if_false, Option.some.injEq, exists_eq_left']
      rw [← requireFields_eq_ok_iff hlength]
      cases requireFields fields tys <;> simp [bind, Except.bind, pure, Except.pure, eq_comm]
    · have hne : tys ≠ fields.map (·.ty) := fun h => hlength (by simp [h])
      simp [hlength, hne]

theorem requireArgs_eq_ok_iff {function : String} {params tys : List Ty} (hlength : tys.length = params.length) :
    requireArgs function params tys = .ok () ↔ tys = params := by
  induction params generalizing tys with
  | nil => cases tys <;> simp_all [requireArgs]
  | cons param params ih =>
    cases tys with
    | nil => cases hlength
    | cons ty tys =>
      have hparam : require ty param function = .ok () ↔ ty = param := require_eq_ok_iff
      rw [requireArgs, List.cons.injEq, ← ih (by simpa using hlength), ← hparam]
      cases require ty param function <;> simp [bind, Except.bind]

theorem callTy_eq_ok_iff {b : Binding} {tys : List Ty} : callTy b tys = .ok ty ↔ tys = b.params ∧ ty = b.ty := by
  unfold callTy
  by_cases hlength : tys.length = b.params.length
  · have hargs : requireArgs b.name b.params tys = .ok () ↔ tys = b.params := requireArgs_eq_ok_iff hlength
    rw [if_neg (by simpa using hlength), ← hargs]
    cases requireArgs b.name b.params tys <;> simp [bind, Except.bind, pure, Except.pure, eq_comm]
  · have hne : tys ≠ b.params := fun h => hlength (by rw [h])
    simp [hlength, hne]

theorem labelledTy_eq_ok_iff {source : Ty} {label : Option String} :
    labelledTy records source label = .ok ty ↔ LabelledTy records source label ty := by
  constructor
  · intro h
    cases label with
    | none =>
      cases h
      exact .value ty
    | some label =>
      cases source with
      | record id =>
        simp only [labelledTy, fieldTy, Ty.recordId?] at h
        split at h
        · cases h
        · next found hfound =>
          cases h
          exact .field hfound
      | _ => cases h
  · rintro (_ | hfield)
    · rfl
    · simp only [labelledTy, fieldTy, Ty.recordId?, hfield]

/-! ## Results up to the fault -/

/-- The computation ends in the value, or in the fault of dividing the smallest word by minus one. -/
def Settles {α : Type} (o : Except Error α) (a : α) : Prop := o = .ok a ∨ o = .error (.fault .remainderOverflow)

section
variable {α β : Type} {o : Except Error α} {a b : α}

theorem Settles.ok (a : α) : Settles (.ok a) a := .inl rfl

theorem Settles.eq (h : Settles o a) (hok : o = .ok b) : b = a := by
  rcases h with rfl | rfl <;> cases hok
  rfl

theorem Settles.bind {f : α → Except Error β} {b : β} (h : Settles o a) (hf : Settles (f a) b) :
    Settles (o >>= f) b := by
  rcases h with rfl | rfl
  · exact hf
  · exact .inr rfl

theorem settles_of_eq (h : o = .ok a) : Settles o a := .inl h

end

theorem fold_settles (op : Symbol) (left right : Option Int) :
    Settles (fold op left right) (constantValue op left right) := by
  cases left with
  | none => exact .ok none
  | some a =>
    cases right with
    | none => exact .ok none
    | some b =>
      cases op with
      | slash =>
        unfold fold
        dsimp only
        split
        · next hzero => exact .inl (by simp [constantValue, hzero])
        · next hzero =>
          split
          · exact .inr rfl
          · refine .inl (congrArg Except.ok ?_)
            by_cases hdvd : b ∣ a
            · simp [constantValue, hzero, hdvd, Int.tmod_eq_zero_of_dvd hdvd, Int.tdiv_eq_ediv_of_dvd hdvd]
            · have hmod : a.tmod b ≠ 0 := fun h => hdvd (Int.dvd_of_tmod_eq_zero h)
              simp [constantValue, hdvd, hmod]
      | caret => exact .inl (by simp only [fold, checkedPow128_eq_checked128]; rfl)
      | _ => exact .ok _

theorem operate_settles {left right : Typed} (h : OperationTy op left.ty right.ty ty) :
    Settles (operate op left right) ⟨ty, constantValue op left.value right.value⟩ :=
  .bind (settles_of_eq (arithmetic_eq_ok_iff.mpr h)) (.bind (fold_settles ..) (.ok _))

theorem operate_eq_ok {left right t : Typed} (h : operate op left right = .ok t) :
    ∃ ty, OperationTy op left.ty right.ty ty ∧ t = ⟨ty, constantValue op left.value right.value⟩ := by
  obtain ⟨ty, harithmetic, -⟩ := exists_of_bind_ok h
  have hty := arithmetic_eq_ok_iff.mp harithmetic
  exact ⟨ty, hty, (operate_settles hty).eq h⟩

theorem connective_eq_ok_iff {left right t : Typed} :
    connective op left right = .ok t ↔ left.ty = .bool ∧ right.ty = .bool ∧ t = .of .bool := by
  constructor
  · intro h
    obtain ⟨_, hleft, h⟩ := exists_of_bind_ok h
    obtain ⟨_, hright, h⟩ := exists_of_bind_ok h
    exact ⟨require_eq_ok_iff.mp hleft, require_eq_ok_iff.mp hright, (Except.ok.inj h).symm⟩
  · rintro ⟨hleft, hright, rfl⟩
    rw [connective, require_eq_ok_iff.mpr hleft, require_eq_ok_iff.mpr hright]
    rfl

end TensorFuzz.Check
