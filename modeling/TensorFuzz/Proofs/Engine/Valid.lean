import TensorFuzz.Proofs.Engine.Run
import TensorFuzz.Proofs.Expr.Typing
import TensorFuzz.Proofs.Ty.Sized

/-!
# Valid states

What holds of the scope and the registry throughout a run: every name is an identifier, every type has a value,
dimensions inside the bound of the profile and a registered record if any, and no record has a record for a
field. Lookups in a valid state are what the typing of expressions rests on.
-/

namespace TensorFuzz

open Check (IsName IsReference)

/-! ## Lookups -/

/-- A binding that is not hidden is the one that its name is looked up to. -/
theorem Scope.find?_unhidden {bs : List Binding} {b : Binding} (h : b ∈ Scope.unhidden bs) :
    (Scope.unhidden bs).find? (·.name == b.name) = some b := by
  induction bs with
  | nil => cases h
  | cons c bs ih =>
    rw [Scope.unhidden] at h ⊢
    rcases List.mem_cons.mp h with rfl | h
    · simp
    · obtain ⟨hb, hne⟩ := List.mem_filter.mp h
      have hne : b.name ≠ c.name := bne_iff_ne.mp hne
      have hsame : (fun a : Binding => decide ((a.name != c.name) = true ∧ (a.name == b.name) = true)) =
          fun a => a.name == b.name := by
        funext a
        by_cases ha : a.name = b.name <;> simp [ha, hne]
      rw [List.find?_cons_of_neg (by simpa using hne.symm), List.find?_filter, hsame]
      exact ih hb

theorem Scope.lookup?_of_mem_visible {scope : Scope} {b : Binding} (h : b ∈ scope.visible) :
    scope.lookup? b.name = some b := find?_unhidden h

theorem Scope.mem_of_mem_unhidden {bs : List Binding} {b : Binding} (h : b ∈ Scope.unhidden bs) : b ∈ bs := by
  induction bs with
  | nil => exact h
  | cons c bs ih =>
    rw [Scope.unhidden] at h
    rcases List.mem_cons.mp h with rfl | h
    · exact List.mem_cons_self
    · exact List.mem_cons_of_mem _ (ih (List.mem_filter.mp h).1)

/-- All frames of a scope, from the inside out. -/
def Scope.frames (scope : Scope) : List Frame := scope.current :: scope.outer

theorem Scope.exists_frame_of_mem_visible {scope : Scope} {b : Binding} (h : b ∈ scope.visible) :
    ∃ frame ∈ scope.frames, b ∈ frame := by
  rcases List.mem_append.mp (mem_of_mem_unhidden h) with h | h
  · exact ⟨_, List.mem_cons_self, h⟩
  · obtain ⟨frame, hframe, hb⟩ := List.mem_flatten.mp h
    exact ⟨frame, List.mem_cons_of_mem _ hframe, hb⟩

/-! ## States -/

/-- A declared name with types that fit the registry. Only a function may have the type of no value. -/
structure Binding.Valid (records : Registry) (bound : Nat) (b : Binding) : Prop where
  name : IsReference b.name
  ty : (b.isFunction = true ∧ b.ty = .void) ∨ b.ty.Sized records bound
  params : ∀ ty ∈ b.params, ty.Sized records bound

/-- A record with named fields, none of which is a record, as many as the profile wants. -/
structure Shape.Valid (p : Profile) (shape : Shape) : Prop where
  id : IsName shape.id
  count : p.recordFields.min ≤ shape.fields.length ∧
    shape.fields.length ≤ max p.recordFields.min p.recordFields.max
  names : ∀ field ∈ shape.fields, IsName field.name
  distinct : (shape.fields.map (·.name)).Nodup
  tys : ∀ field ∈ shape.fields, field.ty.Sized .empty p.dimensionBound

/-- Everything declared so far is valid, and no two records share an identifier. -/
structure Engine.Valid {σ : Type} (p : Profile) (e : Engine σ) : Prop where
  bindings : ∀ frame ∈ e.scope.frames, ∀ b ∈ frame, b.Valid e.records p.dimensionBound
  shapes : ∀ shape ∈ e.records.shapes, shape.Valid p
  ids : e.records.ids.Nodup

section
variable {records records' : Registry} {bound : Nat}

theorem Binding.Valid.mono {b : Binding} (h : b.Valid records bound) (hids : records.ids ⊆ records'.ids) :
    b.Valid records' bound :=
  ⟨h.name, h.ty.imp_right fun hty => hty.mono hids (Nat.le_refl _),
    fun ty hty => (h.params ty hty).mono hids (Nat.le_refl _)⟩

theorem Binding.Valid.ty_of_value {b : Binding} (h : b.Valid records bound) (hb : b.isFunction = false) :
    b.ty.Sized records bound := by
  rcases h.ty with ⟨hfunction, -⟩ | hty
  · rw [hb] at hfunction
    cases hfunction
  · exact hty

theorem Registry.fields?_of_mem_ids {id : String} (h : id ∈ records.ids) :
    ∃ fields, records.fields? id = some fields := by
  obtain ⟨shape, hshape, rfl⟩ := List.mem_map.mp h
  cases hfind : records.shapes.find? (·.id == shape.id) with
  | none =>
    have := List.find?_eq_none.mp hfind shape hshape
    simp at this
  | some found => exact ⟨found.fields, by rw [Registry.fields?, hfind]; rfl⟩

theorem Registry.mem_of_fields? {id : String} {fields : List Field} (h : records.fields? id = some fields) :
    ⟨id, fields⟩ ∈ records.shapes := by
  obtain ⟨shape, hfind, rfl⟩ := Option.map_eq_some_iff.mp h
  have hid : shape.id = id := by simpa using List.find?_some hfind
  exact hid ▸ List.mem_of_find?_eq_some hfind

end

theorem find?_of_nodup {fields : List Field} (h : (fields.map (·.name)).Nodup) {field : Field}
    (hmem : field ∈ fields) : fields.find? (·.name == field.name) = some field := by
  induction fields with
  | nil => cases hmem
  | cons first fields ih =>
    rw [List.map_cons, List.nodup_cons] at h
    rcases List.mem_cons.mp hmem with rfl | hmem
    · simp
    · have hne : first.name ≠ field.name := fun heq => h.1 (heq ▸ List.mem_map_of_mem hmem)
      rw [List.find?_cons_of_neg (by simpa using hne)]
      exact ih h.2 hmem

/-! ## Moves -/

namespace Engine

variable {σ : Type} {e e' : Engine σ}

/-- The state inside a block. -/
def opened (e : Engine σ) : Engine σ := { e with scope := e.scope.descend, stmtDepth := e.stmtDepth + 1 }

theorem opened_scope (e : Engine σ) : e.opened.scope = e.scope.descend := rfl

theorem opened_stmtDepth (e : Engine σ) : e.opened.stmtDepth = e.stmtDepth + 1 := rfl

/-- The state behind a block, with the frames around it. -/
def closed (e : Engine σ) (scope : Scope) : Engine σ := { e with scope, stmtDepth := e.stmtDepth - 1 }

theorem enter_eq_ok_iff : e.enter = .ok e' ↔ e.stmtDepth + 1 < limit64 ∧ e' = e.opened := by
  unfold enter
  split
  · next h => simp [h, opened, eq_comm]
  · next h => simp [h]

theorem leave_eq_ok_iff :
    e.leave = .ok e' ↔ e.stmtDepth ≠ 0 ∧ ∃ scope, e.scope.exit = .ok scope ∧ e' = e.closed scope := by
  unfold leave
  split
  · next h => simp [h]
  · next h => cases e.scope.exit <;> simp [h, closed, eq_comm, Except.map]

end Engine

namespace Gen

variable {σ : Type} {e e' : Engine σ}

theorem run_openBlock_iff {a : Unit} :
    openBlock.run e = .ok (a, e') ↔ e.stmtDepth + 1 < limit64 ∧ e' = e.opened := by
  rw [← Engine.enter_eq_ok_iff]
  show (orFault e.enter >>= fun e' => set e').run e = _ ↔ _
  cases e.enter with
  | error fault => simp [orFault, run, Bind.bind, Gen.bind]
  | ok e' => simp [orFault, run, Bind.bind, Gen.bind, set, MonadStateOf.set]

theorem run_closeBlock_iff {a : Unit} : closeBlock.run e = .ok (a, e') ↔
    e.stmtDepth ≠ 0 ∧ ∃ scope, e.scope.exit = .ok scope ∧ e' = e.closed scope := by
  rw [← Engine.leave_eq_ok_iff]
  show (orFault e.leave >>= fun e' => set e').run e = _ ↔ _
  cases e.leave with
  | error fault => simp [orFault, run, Bind.bind, Gen.bind]
  | ok e' => simp [orFault, run, Bind.bind, Gen.bind, set, MonadStateOf.set]

/-- A computation in a frame of its own runs from the state in the new frame, and the frame is left after it. -/
theorem exists_of_run_nested {α : Type} {g : Gen σ α} {a : α} (h : (nested g).run e = .ok (a, e')) :
    openBlock.run e = .ok ((), e.opened) ∧ ∃ e₁, g.run e.opened = .ok (a, e₁) ∧
      closeBlock.run e₁ = .ok ((), e') := by
  obtain ⟨_, e₁, hopen, hrest⟩ := exists_of_run_bind h
  obtain ⟨b, e₂, hg, hrest⟩ := exists_of_run_bind hrest
  obtain ⟨_, e₃, hclose, hlast⟩ := exists_of_run_bind hrest
  cases hlast
  obtain ⟨-, rfl⟩ := run_openBlock_iff.mp hopen
  exact ⟨hopen, e₂, hg, hclose⟩

end Gen

namespace Gen.Gives

variable {σ : Type} [RandomSource σ] {safe : Faults} {I : Engine σ → Prop} {e : Engine σ}

theorem openBlock (hroom : safe .addOverflow → e.stmtDepth + 1 < limit64) (h : I e.opened) :
    Gives safe I Gen.openBlock e fun _ e' => e' = e.opened := by
  refine .get (.checked (f := set) (fun fault hfault hsafe => ?_) fun e' he' => ?_)
  · unfold Engine.enter at hfault
    split at hfault
    · cases hfault
    · next hfull =>
      cases hfault
      exact hfull (hroom hsafe)
  · rw [(Engine.enter_eq_ok_iff.mp he').2]
    exact .put h rfl

theorem closeBlock (hdepth : e.stmtDepth ≠ 0) {frame : Frame} {outer : List Frame}
    (houter : e.scope.outer = frame :: outer) (h : I (e.closed ⟨frame, outer⟩)) :
    Gives safe I Gen.closeBlock e fun _ e' => e' = e.closed ⟨frame, outer⟩ := by
  have hexit : e.scope.exit = .ok ⟨frame, outer⟩ := by rw [Scope.exit, houter]
  exact .get (.orFault (f := set) (Engine.leave_eq_ok_iff.mpr ⟨hdepth, _, hexit, rfl⟩) (.put h rfl))

end Gen.Gives

section
variable {σ : Type} {p : Profile} {e : Engine σ}

theorem Engine.Valid.visible (h : e.Valid p) {b : Binding} (hb : b ∈ e.scope.visible) :
    b.Valid e.records p.dimensionBound := by
  obtain ⟨frame, hframe, hmem⟩ := Scope.exists_frame_of_mem_visible hb
  exact h.bindings frame hframe b hmem

theorem Engine.Valid.fields (h : e.Valid p) {id : String} {fields : List Field}
    (hfields : e.records.fields? id = some fields) : Shape.Valid p ⟨id, fields⟩ :=
  h.shapes _ (Registry.mem_of_fields? hfields)

/-- A field found by its type is the field that its name is looked up to. -/
theorem Engine.Valid.fieldNamed? (h : e.Valid p) {id : String} {ty : Ty} {field : Field}
    (hfield : e.records.fieldOfTy? id ty = some field) :
    e.records.fieldNamed? id field.name = some field ∧ field.ty = ty ∧ IsName field.name := by
  obtain ⟨fields, hfields, hfind⟩ := Option.bind_eq_some_iff.mp hfield
  have hvalid := h.fields hfields
  have hmem := List.mem_of_find?_eq_some hfind
  refine ⟨?_, by simpa using List.find?_some hfind, hvalid.names field hmem⟩
  rw [Registry.fieldNamed?, hfields]
  exact find?_of_nodup hvalid.distinct hmem

/-- A type that a field is found by is no record. -/
theorem Engine.Valid.fieldTy (h : e.Valid p) {id : String} {ty : Ty} {field : Field}
    (hfield : e.records.fieldOfTy? id ty = some field) : ty.Sized .empty p.dimensionBound := by
  obtain ⟨fields, hfields, hfind⟩ := Option.bind_eq_some_iff.mp hfield
  have hty : field.ty = ty := by simpa using List.find?_some hfind
  exact hty ▸ (h.fields hfields).tys field (List.mem_of_find?_eq_some hfind)

/-- A field that can be assigned to is the field that its name is looked up to. -/
theorem Engine.Valid.mutableField (h : e.Valid p) {id : String} {field : Field}
    (hfield : field ∈ e.records.mutableFields id) : e.records.fieldNamed? id field.name = some field ∧
      field.ty.Sized e.records p.dimensionBound ∧ field.isMutable = true := by
  obtain ⟨hmem, hmutable⟩ := List.mem_filter.mp hfield
  cases hfields : e.records.fields? id with
  | none =>
    rw [hfields] at hmem
    cases hmem
  | some fields =>
    rw [hfields] at hmem
    have hvalid := h.fields hfields
    refine ⟨?_, (hvalid.tys field hmem).mono (List.nil_subset _) (Nat.le_refl _), hmutable⟩
    rw [Registry.fieldNamed?, hfields]
    exact find?_of_nodup hvalid.distinct hmem

/-- A binding that a type is looked up by has the type itself, or is a record with a field of it. -/
theorem Engine.Valid.ofTy (h : e.Valid p) {ty : Ty} {b : Binding} (hb : b ∈ e.scope.ofTy e.records ty) :
    b ∈ e.scope.visible ∧ (b.ty = ty ∨
      ∃ id field, b.ty = .record id ∧ ty.recordId? = none ∧ e.records.fieldOfTy? id ty = some field) := by
  obtain ⟨hvisible, hmatch⟩ := List.mem_filter.mp hb
  refine ⟨hvisible, ?_⟩
  rcases Bool.or_eq_true_iff.mp hmatch with hsame | hfield
  · exact .inl (by simpa using hsame)
  · obtain ⟨id, hid, hsome⟩ := (Option.any_eq_true _ _).mp hfield
    obtain ⟨field, hfind⟩ := Option.isSome_iff_exists.mp hsome
    refine .inr ⟨id, field, ?_, ?_, hfind⟩
    · cases hty : b.ty <;> rw [hty] at hid <;> cases hid
      rfl
    · exact (h.fieldTy hfind).recordId?

theorem Engine.start_valid (p : Profile) (supply : Supply σ) : (Engine.start p supply).Valid p where
  bindings := by simp [Engine.start, Scope.frames, Scope.empty]
  shapes := by simp [Engine.start, Registry.empty]
  ids := List.nodup_nil

theorem Engine.Valid.agrees {e' : Engine σ} (h : e.Valid p) (he : e.Agrees e') : e'.Valid p where
  bindings := by
    rw [he.scope, he.records]
    exact h.bindings
  shapes := he.records ▸ h.shapes
  ids := he.records ▸ h.ids

theorem Engine.Valid.declared (h : e.Valid p) {b : Binding} (hb : b.Valid e.records p.dimensionBound) :
    Engine.Valid p { e with scope := e.scope.define b } :=
  { h with
    bindings := by
      intro frame hframe c hc
      rcases List.mem_cons.mp hframe with rfl | hframe
      · rcases List.mem_cons.mp hc with rfl | hc
        · exact hb
        · exact h.bindings _ List.mem_cons_self c hc
      · exact h.bindings frame (List.mem_cons_of_mem _ hframe) c hc }

theorem Engine.Valid.descended (h : e.Valid p) : Engine.Valid p { e with scope := e.scope.descend } :=
  { h with
    bindings := by
      intro frame hframe
      rcases List.mem_cons.mp hframe with rfl | hframe
      · exact fun b hb => absurd hb List.not_mem_nil
      · exact h.bindings frame hframe }

theorem Engine.Valid.exited (h : e.Valid p) {frame : Frame} {outer : List Frame}
    (houter : e.scope.outer = frame :: outer) : Engine.Valid p { e with scope := ⟨frame, outer⟩ } :=
  { h with bindings := fun found hfound => h.bindings found (List.mem_cons_of_mem _ (houter ▸ hfound)) }

theorem Engine.Valid.opened (h : e.Valid p) : e.opened.Valid p :=
  have hdescended := h.descended
  ⟨hdescended.bindings, hdescended.shapes, hdescended.ids⟩

theorem Engine.Valid.closed (h : e.Valid p) {frame : Frame} {outer : List Frame}
    (houter : e.scope.outer = frame :: outer) : (e.closed ⟨frame, outer⟩).Valid p :=
  have hexited := h.exited houter
  ⟨hexited.bindings, hexited.shapes, hexited.ids⟩

theorem Registry.contains_iff (records : Registry) (id : String) :
    records.contains id = true ↔ id ∈ records.ids := by
  rw [Registry.contains, List.any_eq_true, Registry.ids, List.mem_map]
  exact exists_congr fun shape => and_congr_right fun _ => beq_iff_eq

theorem Registry.define_of_free {records : Registry} {id : String} (hfree : id ∉ records.ids) (fields : List Field) :
    records.define id fields = .ok ⟨records.shapes ++ [⟨id, fields⟩]⟩ :=
  if_neg fun h => hfree ((records.contains_iff id).mp h)

theorem Registry.ids_append (shapes : List Shape) (shape : Shape) :
    Registry.ids ⟨shapes ++ [shape]⟩ = Registry.ids ⟨shapes⟩ ++ [shape.id] := List.map_append

theorem Engine.Valid.registered (h : e.Valid p) {shape : Shape} (hshape : shape.Valid p)
    (hfree : shape.id ∉ e.records.ids) :
    Engine.Valid p { e with records := ⟨e.records.shapes ++ [shape]⟩ } where
  bindings := fun frame hframe b hb => (h.bindings frame hframe b hb).mono <| by
    rw [Registry.ids_append]
    exact List.subset_append_left _ _
  shapes := fun found hfound => by
    rcases List.mem_append.mp hfound with hfound | hfound
    · exact h.shapes found hfound
    · exact List.mem_singleton.mp hfound ▸ hshape
  ids := by
    rw [Registry.ids_append]
    exact List.nodup_append.mpr ⟨h.ids, by simp, fun id hid other hother heq =>
      hfree (List.mem_singleton.mp hother ▸ heq ▸ hid)⟩

end

end TensorFuzz
