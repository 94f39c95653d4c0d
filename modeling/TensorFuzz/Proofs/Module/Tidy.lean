import TensorFuzz.Proofs.Module.Soundness

/-!
# The invariant of generator states

At every point of every run: names are distinct in each frame, records are told apart from functions by the words
that their names begin with, types lie inside the bounds of the profile, and frames are opened and closed with the
statement level. The frame that the fields of a record are named in is the one exception: it is no statement level.
-/

namespace TensorFuzz

open Gen
open Name (Led firstWords functionWords)

variable {σ : Type} {p : Profile} {e e' : Engine σ}

/-- Valid, with distinct names in each frame and names by which functions and records are told apart. -/
structure Engine.Tidy (p : Profile) (e : Engine σ) : Prop where
  valid : e.Valid p
  distinct : ∀ frame ∈ e.scope.frames, (frame.map (·.name)).Nodup
  functions : ∀ frame ∈ e.scope.frames, ∀ b ∈ frame, b.isFunction = true →
    Led functionWords b.name ∨ b.name = Module.entryName
  records : ∀ id ∈ e.records.ids, Led (firstWords Name.records) id

/-- Every frame but that of the module belongs to an open block. -/
def Engine.Level (e : Engine σ) : Prop := e.scope.depth = e.stmtDepth

/-! ## Moves -/

theorem Engine.Tidy.agrees (h : e.Tidy p) (he : e.Agrees e') : e'.Tidy p where
  valid := h.valid.agrees he
  distinct := he.scope ▸ h.distinct
  functions := he.scope ▸ h.functions
  records := he.records ▸ h.records

theorem Engine.Level.agrees (h : e.Level) (he : e.Agrees e') : e'.Level := by
  unfold Engine.Level
  rw [he.scope, he.stmtDepth]
  exact h

theorem Engine.Tidy.declared (h : e.Tidy p) {b : Binding} (hb : b.Valid e.records p.dimensionBound)
    (hfree : b.name ∉ e.scope.currentNames)
    (hname : b.isFunction = true → Led functionWords b.name ∨ b.name = Module.entryName) :
    Engine.Tidy p { e with scope := e.scope.define b } where
  valid := h.valid.declared hb
  distinct := fun frame hframe => by
    rcases List.mem_cons.mp hframe with rfl | hframe
    · exact List.nodup_cons.mpr ⟨hfree, h.distinct _ List.mem_cons_self⟩
    · exact h.distinct frame (List.mem_cons_of_mem _ hframe)
  functions := fun frame hframe c hc => by
    rcases List.mem_cons.mp hframe with rfl | hframe
    · rcases List.mem_cons.mp hc with rfl | hc
      · exact hname
      · exact h.functions _ List.mem_cons_self c hc
    · exact h.functions frame (List.mem_cons_of_mem _ hframe) c hc
  records := h.records

theorem Engine.Tidy.opened (h : e.Tidy p) : e.opened.Tidy p where
  valid := h.valid.opened
  distinct := List.forall_mem_cons.mpr ⟨List.nodup_nil, h.distinct⟩
  functions := List.forall_mem_cons.mpr ⟨fun _ hb => absurd hb List.not_mem_nil, h.functions⟩
  records := h.records

theorem Engine.Level.opened (h : e.Level) : e.opened.Level := congrArg (· + 1) h

theorem Engine.Tidy.closed (h : e.Tidy p) {frame : Frame} {outer : List Frame}
    (houter : e.scope.outer = frame :: outer) : (e.closed ⟨frame, outer⟩).Tidy p where
  valid := h.valid.closed houter
  distinct := fun found hfound => h.distinct found (List.mem_cons_of_mem _ (houter ▸ hfound))
  functions := fun found hfound => h.functions found (List.mem_cons_of_mem _ (houter ▸ hfound))
  records := h.records

theorem Engine.Level.closed (h : e.Level) {frame : Frame} {outer : List Frame}
    (houter : e.scope.outer = frame :: outer) : (e.closed ⟨frame, outer⟩).Level := by
  have hlength : outer.length + 1 = e.stmtDepth := by
    rw [← h, Scope.depth, houter, List.length_cons]
  show outer.length = e.stmtDepth - 1
  omega

theorem Engine.Tidy.registered (h : e.Tidy p) {shape : Shape} (hshape : shape.Valid p)
    (hfree : shape.id ∉ e.records.ids) (hname : Led (firstWords Name.records) shape.id) :
    Engine.Tidy p { e with records := ⟨e.records.shapes ++ [shape]⟩ } where
  valid := h.valid.registered hshape hfree
  distinct := h.distinct
  functions := h.functions
  records := (Engine.Named.registered ⟨h.valid, h.records⟩ hshape hfree hname).records

theorem FieldFrame.tidy (h : FieldFrame p e e') (he : e.Tidy p) : e'.Tidy p where
  valid := h.valid he.valid
  distinct := h.frames ▸ List.forall_mem_cons.mpr ⟨h.distinct, he.distinct⟩
  functions := by
    rw [h.frames]
    refine List.forall_mem_cons.mpr ⟨fun b hb hfunction => ?_, he.functions⟩
    rw [(h.bindings b hb).2] at hfunction
    cases hfunction
  records := h.records ▸ he.records

theorem FieldFrame.depth (h : FieldFrame p e e') (he : e.Level) : e'.scope.depth = e'.stmtDepth + 1 := by
  rw [Scope.depth, h.outer, h.stmtDepth, ← he]
  rfl

theorem Engine.start_tidy (p : Profile) (supply : Supply σ) : (Engine.start p supply).Tidy p where
  valid := Engine.start_valid p supply
  distinct := List.forall_mem_singleton.mpr List.nodup_nil
  functions := List.forall_mem_singleton.mpr fun _ hb => absurd hb List.not_mem_nil
  records := fun _ hid => absurd hid List.not_mem_nil

/-! ## The invariant -/

/-- What is asked of the state at every point of a run. -/
structure Engine.Consistent (p : Profile) (e : Engine σ) : Prop where
  /-- The names declared in a frame are distinct. -/
  names : ∀ frame ∈ e.scope.frames, (frame.map (·.name)).Nodup
  /-- No record has the identifier of another one, or the name of a function. -/
  ids : e.records.ids.Nodup ∧
    ∀ frame ∈ e.scope.frames, ∀ b ∈ frame, b.isFunction = true → b.name ∉ e.records.ids
  /-- Types lie inside the bound of dimensions; only a function may have the type of no value. -/
  tys : ∀ frame ∈ e.scope.frames, ∀ b ∈ frame,
    ((b.isFunction = true ∧ b.ty = .void) ∨ b.ty.Sized e.records p.maxDimension) ∧
      ∀ ty ∈ b.params, ty.Sized e.records p.maxDimension
  /-- Records have as many fields as the profile wants, with distinct names and types that are no records. -/
  fields : ∀ shape ∈ e.records.shapes,
    (p.recordFields.min ≤ shape.fields.length ∧ shape.fields.length ≤ p.recordFields.max) ∧
      (shape.fields.map (·.name)).Nodup ∧ ∀ field ∈ shape.fields, field.ty.Sized .empty p.maxDimension
  /-- The order of declaration lists each record once. -/
  order : ∀ id, e.records.ids.count id = if e.records.contains id then 1 else 0

theorem Profile.bounds_of_valid (h : p.invalid? = none) :
    p.dimensionBound = p.maxDimension ∧ p.recordFields.min ≤ p.recordFields.max := by
  have hdimension := Profile.maxDimension_of_valid h
  unfold Profile.dimensionBound
  exact ⟨by omega, Profile.range_of_valid h (by simp [Profile.ranges])⟩

theorem Engine.Tidy.consistent (h : e.Tidy p) (hp : p.invalid? = none) : e.Consistent p := by
  obtain ⟨hbound, hfields⟩ := Profile.bounds_of_valid hp
  have hvalid := h.valid
  refine ⟨h.distinct, ⟨hvalid.ids, fun frame hframe b hb hfunction hmem => ?_⟩, fun frame hframe b hb => ?_,
    fun shape hshape => ?_, fun id => ?_⟩
  · have hrecord := h.records b.name hmem
    rcases h.functions frame hframe b hb hfunction with hled | hentry
    · exact hrecord.ne hled (by decide) (by decide) rfl
    · exact hrecord.ne (.self Module.entryName) (by decide) (by decide) hentry
  · have hbinding := hvalid.bindings frame hframe b hb
    exact ⟨hbound ▸ hbinding.ty, hbound ▸ hbinding.params⟩
  · have hshape := hvalid.shapes shape hshape
    exact ⟨⟨hshape.count.1, Nat.le_trans hshape.count.2 (by omega)⟩, hshape.distinct, hbound ▸ hshape.tys⟩
  · rw [hvalid.ids.count]
    simp only [Registry.contains_iff]

variable [RandomSource σ]

/-! ## Runs -/

/-- The points of a run inside the frame that the fields of a record are named in. -/
def InFields (p : Profile) (visited : Engine σ → Prop) (e : Engine σ) : Prop :=
  ∃ e₁ n, visited e₁ ∧ e₁.Level ∧ Visits (times (Module.drawField p) n) e₁.naming e

theorem ModuleSetting.tidy (p : Profile) (visited : Engine σ → Prop) :
    ModuleSetting p .none p.Opens (fun _ _ _ _ => True) (fun e => e.Tidy p ∧ e.Level)
      (fun e => e.Tidy p ∧ (e.Level ∨ InFields p visited e)) visited fun scope =>
        Module.entryName ∉ scope.currentNames where
  room hsafe _ := hsafe.elim
  valid h := h.1.valid
  agrees h he := ⟨h.1.agrees he, h.2.agrees he⟩
  declared h hb hvalue hfree :=
    ⟨h.1.declared hb hfree fun hfunction => absurd (hvalue.symm.trans hfunction) nofun, h.2⟩
  opened h _ := ⟨h.1.opened, h.2.opened⟩
  closed h houter := ⟨h.1.closed houter, h.2.closed houter⟩
  expr _ _ := Expr.generate_quiet _
  call _ _ _ := Expr.callAt_quiet _ _ _
  name _ _ _ := trivial
  within h := ⟨h.1, .inl h.2⟩
  naming h hvisited hframe hvisits := ⟨hframe.tidy h.1, .inr ⟨_, _, hvisited, h.2, hvisits⟩⟩
  function h hb _ hfree hled := ⟨h.1.declared hb hfree fun _ => .inl hled, h.2⟩
  record h hshape hfree hled := ⟨h.1.registered hshape hfree hled, h.2⟩
  entry h hfree := ⟨h.1.declared (entry_valid _ _) hfree fun _ => .inr rfl, h.2⟩
  free hfree hled := fun hmem => by
    rcases List.mem_cons.mp hmem with heq | hmem
    · exact (Name.Led.self Module.entryName).ne hled (by decide) (by decide) heq
    · exact hfree hmem

namespace Module

/-- At every point of a run, the state is consistent, and its frames are those of the open blocks, and one more while
the fields of a record are drawn. -/
theorem visits_consistent (hp : p.invalid? = none) (supply : Supply σ)
    (hvisits : Visits (generate p) (Engine.start p supply) e) :
    e.Consistent p ∧ (InFields p (Visits (generate p) (Engine.start p supply)) e → e.scope.depth = e.stmtDepth + 1) ∧
      (¬ InFields p (Visits (generate p) (Engine.start p supply)) e → e.scope.depth = e.stmtDepth) := by
  have s := ModuleSetting.tidy p (Visits (generate p) (Engine.start p supply))
  have htidy := Engine.start_tidy p supply
  have hgives := s.generate ⟨htidy, rfl⟩ (canHoldBody_opens p) List.not_mem_nil fun _ => id
  obtain ⟨htidy, hlevel⟩ := hgives.of_visits ⟨htidy, .inl rfl⟩ hvisits
  refine ⟨htidy.consistent hp, fun hfields => ?_, fun hfields => hlevel.resolve_right hfields⟩
  obtain ⟨e₁, n, -, hlevel₁, hvisits₁⟩ := hfields
  have hfields : Gives .none (FieldFrame p e₁) (times (drawField p) n) e₁.naming _ :=
    drawFields_gives (.naming p e₁) n
  exact (hfields.of_visits (.naming p e₁) hvisits₁).depth hlevel₁

/-- The last point of a run of the default profile. -/
theorem visits_consistent_default : ∃ items e,
    run {} (⟨Repeating.mk 0, fun _ => 1⟩ : Supply Repeating) = .ok (items, e) ∧ e.Consistent {} := by
  obtain ⟨items, e, hrun⟩ := exists_run (p := {}) (by decide) (by decide) Repeating.zero_steady
  exact ⟨items, e, hrun, (visits_consistent (by decide) _ (visits_of_run hrun)).1⟩

end Module

end TensorFuzz
