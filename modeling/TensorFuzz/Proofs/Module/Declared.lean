import TensorFuzz.Proofs.Module.Frames
import TensorFuzz.Proofs.Module.Headings

/-!
# Declarations and their texts

Each declaration is written twice, as text and as state. From every reachable state, the text of a declaration is read
back as exactly what the declaration adds to the scope or the registry.
-/

namespace TensorFuzz

open Gen
open Check (IsName)
open Name (Led firstWords)

variable {σ : Type} {α β : Type} {p : Profile} {e e' inner : Engine σ}

/-! ## Parts of runs -/

namespace Gen

/-- At some point of the run from a state, the part is run from `inner`, and comes to a result. -/
def RunsInside (g : Gen σ α) (e : Engine σ) (part : Gen σ β) (b : β) (inner : Engine σ) : Prop :=
  Visits g e inner ∧ ∃ e', part.run inner = .ok (b, e')

namespace RunsInside

variable {g : Gen σ α} {f : α → Gen σ β} {γ : Type} {part : Gen σ γ} {c : γ}

theorem left (h : RunsInside g e part c inner) : RunsInside (g >>= f) e part c inner := ⟨h.1.left, h.2⟩

theorem right {a : α} (hrun : g.run e = .ok (a, e')) (h : RunsInside (f a) e' part c inner) :
    RunsInside (g >>= f) e part c inner := ⟨h.1.right hrun, h.2⟩

theorem here {a : α} (hrun : g.run e = .ok (a, e')) : RunsInside g e g a e := ⟨.here _ _, e', hrun⟩

theorem nested (hopen : openBlock.run e = .ok ((), e.opened)) (h : RunsInside g e.opened part c inner) :
    RunsInside (Gen.nested g) e part c inner :=
  .right hopen h.left

end RunsInside

end Gen

/-! ## Legible types -/

/-- A type with a value can be told from its text, as words hold its dimensions and its record has a name for
records. -/
theorem Ty.Sized.legible {ty : Ty} (h : ty.Sized e.records p.dimensionBound) (he : e.Named p)
    (hmax : p.maxDimension < 0x8000000000000000) : ty.Legible := by
  have hfits {n : Nat} (hn : n ≤ p.dimensionBound) : Fits64 n := by
    unfold Fits64 Profile.dimensionBound at *
    omega
  cases ty with
  | vector kind length => exact hfits h.2
  | matrix kind rows cols => exact ⟨hfits h.1.2, hfits h.2.2⟩
  | record id =>
    have hled := he.records id h
    refine ⟨hled.isName (by decide), fun hword => ?_⟩
    have hself : Led Heading.tyWords id := (Led.self id).mono fun _ hmem => List.mem_singleton.mp hmem ▸ hword
    exact hled.ne hself (by decide) (by decide) rfl
  | bool | int | float | string | void => trivial

variable [RandomSource σ]

/-! ## Values and variables -/

/-- A binding is added to the innermost frame, and the text of the statement is read back as that binding. -/
def Stmt.Records (e : Engine σ) (stmt : Stmt) (e' : Engine σ) : Prop :=
  ∃ b, e'.scope = e.scope.define b ∧ Heading.declaration.read stmt.text = some b

namespace Stmt

variable {e₀ : Engine σ}

/-- A statement that declares a fresh name of a type is read back as the binding that it adds. -/
theorem naming_records (h₀ : e₀.Named p) (hmax : p.maxDimension < 0x8000000000000000) (he : e₀.Agrees e) {ty : Ty}
    (hty : ty.Sized e₀.records p.dimensionBound) (kind : BindingKind) {make : SpelledTy → String → Stmt}
    (hread : ∀ {spelled name}, spelled.Spells ty → ty.Legible → IsName name →
      Heading.declaration.read (make spelled name).text = some ⟨kind, name, ty, []⟩) :
    Gives .none (fun _ => True)
      (do
        let name ← freeName ty
        let spelled ← spell p ty
        modifyScope (·.define ⟨kind, name, ty, []⟩)
        return make spelled name)
      e (Records e₀) := by
  have hany (e : Engine σ) (_ : e₀.Agrees e) : True := trivial
  refine ((Keeps.freeName ty).within hany he).bind fun name e₁ ⟨hname, h₁⟩ => ?_
  refine ((Keeps.spell p ty).within hany h₁).bind fun spelled e₂ ⟨hspelled, h₂⟩ => ?_
  refine (Gives.update trivial rfl).bind fun _ e₃ heq => .pure ⟨⟨kind, name, ty, []⟩, ?_, ?_⟩
  · rw [heq, ← h₂.scope]
  · exact hread hspelled (hty.legible h₀ hmax) (Name.isReference_of_variable hname.2).1

theorem drawValueOf_records (h₀ : e₀.Named p) (hmax : p.maxDimension < 0x8000000000000000) (he : e₀.Agrees e)
    {ty : Ty} (hty : ty.Sized e₀.records p.dimensionBound) :
    Gives .none (fun _ => True) (drawValueOf p ty) e (Records e₀) := by
  refine ((Expr.generate_quiet ty).within (fun _ _ => trivial) he).bind fun init e₁ ⟨_, h₁⟩ => ?_
  exact naming_records h₀ hmax h₁ hty .value fun hspelled hlegible hname =>
    Heading.read_declareValue hspelled hlegible hname init

theorem drawVariable_records (h₀ : e₀.Named p) (hmax : p.maxDimension < 0x8000000000000000) :
    Gives .none (fun _ => True) (drawVariable p) e₀ (Records e₀) := by
  have hty : Keeps .none e₀ (Gen.ty p true) _ := Keeps.ty p true
  exact (hty.within (fun _ _ => trivial) (.refl e₀)).bind fun ty e₁ ⟨hty, h₁⟩ =>
    naming_records h₀ hmax h₁ hty .variable Heading.read_declareVariable

theorem drawValue_records (h₀ : e₀.Named p) (hmax : p.maxDimension < 0x8000000000000000) :
    Gives .none (fun _ => True) (drawValue p) e₀ (Records e₀) := by
  have hty : Keeps .none e₀ (Gen.ty p true) _ := Keeps.ty p true
  exact (hty.within (fun _ _ => trivial) (.refl e₀)).bind fun ty e₁ ⟨hty, h₁⟩ => drawValueOf_records h₀ hmax h₁ hty

/-! ## Loops over entries -/

/-- A loop over entries runs its body where its name is added to a new frame, and its text is read back as that
binding. -/
theorem drawForeach_records (he : e.Named p) (hmax : p.maxDimension < 0x8000000000000000) {deeper : Gen σ Stmt}
    {stmt : Stmt} (hrun : (drawForeach p deeper).run e = .ok (stmt, e')) :
    ∃ b isVariable spelled name collection body inner, stmt = .foreach isVariable spelled name collection body ∧
      RunsInside (drawForeach p deeper) e deeper body inner ∧ inner.scope = e.scope.descend.define b ∧
        Heading.loop.read stmt.text = some b := by
  have s := ModuleSetting.named (σ := σ) p
  obtain ⟨existing, e₁, hpick, hrun⟩ := exists_of_run_bind (g := pick? e.scope.tensors) hrun
  obtain ⟨hexisting, h₁⟩ := (Keeps.pick? e.scope.tensors).of_run (.refl e) hpick
  have he₁ := s.agrees he h₁
  obtain ⟨hopen, e₇, hinside, -⟩ := exists_of_run_nested hrun
  obtain ⟨⟨isVariable, entryTy, collection⟩, e₂, hiteration, hinside⟩ := exists_of_run_bind hinside
  have hexisting' (b : Binding) (hb : b ∈ existing) : b ∈ e₁.scope.tensors := h₁.scope ▸ hexisting.2 b hb
  obtain ⟨⟨ty, htensor, hty, -, -, hentry⟩, h₂⟩ := (s.drawIteration he₁ trivial hexisting').of_run (.refl _) hiteration
  obtain ⟨name, e₃, hfree, hinside⟩ := exists_of_run_bind hinside
  obtain ⟨hname, h₃⟩ := (Keeps.freeName entryTy).of_run h₂ hfree
  obtain ⟨spelled, e₄, hspell, hinside⟩ := exists_of_run_bind hinside
  obtain ⟨hspelled, h₄⟩ := (Keeps.spell p entryTy).of_run h₃ hspell
  obtain ⟨_, e₅, hdefine, hinside⟩ := exists_of_run_bind hinside
  obtain ⟨body, e₆, hdeeper, hend⟩ := exists_of_run_bind hinside
  cases hend
  refine ⟨⟨if isVariable then .variable else .value, name, entryTy, []⟩, isVariable, spelled, name, collection, body,
    e₅, rfl, ?_, ?_, ?_⟩
  · refine .right rfl (.right hpick (.nested hopen ?_))
    refine .right hiteration ?_
    exact .right hfree (.right hspell (.right hdefine (.left (.here hdeeper))))
  · rw [defineEntry_eq] at hdefine
    cases hdefine
    show e₄.scope.define _ = _
    rw [h₄.scope, Engine.opened_scope, h₁.scope]
  · have hlegible : ty.elementTy.Legible := hty.elementTy.legible he₁ hmax
    rw [← hentry] at hlegible
    exact Heading.read_foreach hspelled hlegible (Name.isReference_of_variable hname.2).1 isVariable collection body

end Stmt

/-! ## Functions -/

/-- A parameter of a type, as a variable. -/
def Parameter.binding (part : Parameter × Ty) : Binding := ⟨.variable, part.1.name, part.2, []⟩

theorem Parameter.AllTyped.exists_parts {scope scope' : Scope} {params : List Parameter} {tys : List Ty}
    (h : Parameter.AllTyped scope params tys scope') : ∃ parts : List (Parameter × Ty),
      params = parts.map (·.1) ∧ tys = parts.map (·.2) ∧ (∀ part ∈ parts, part.1.ty.Spells part.2) ∧
        scope' = ⟨(parts.map Parameter.binding).reverse ++ scope.current, scope.outer⟩ := by
  induction h with
  | nil => exact ⟨[], rfl, rfl, List.forall_mem_nil _, rfl⟩
  | @cons scope scope' param params ty tys hspells _ _ ih =>
    obtain ⟨parts, rfl, rfl, hparts, hscope⟩ := ih
    refine ⟨(param, ty) :: parts, rfl, rfl, List.forall_mem_cons.mpr ⟨hspells, hparts⟩, ?_⟩
    rw [hscope, List.map_cons, List.reverse_cons, List.append_assoc]
    rfl

namespace Module

/-- The body of a function runs in a new frame of its parameters, and the text of the function is read back as its
entry and these parameters. -/
theorem drawInside_records (he : e.Named p) (hmax : p.maxDimension < 0x8000000000000000) {spelled : SpelledTy}
    {name : String} {ty : Ty} {paramTys : List Ty} (hspelled : spelled.Spells ty) (hlegible : ty.Legible)
    (hname : IsName name) (hparams : ∀ ty ∈ paramTys, ty.Sized e.records p.dimensionBound) {item : Item}
    (hrun : (drawInside p spelled name ty paramTys).run e = .ok (item, e')) :
    e'.scope = e.scope ∧ ∃ f params inner, item = .function f ∧
      RunsInside (drawInside p spelled name ty paramTys) e (Stmt.several p p.functionBody) f.body inner ∧
        inner.scope = ⟨params.reverse, e.scope.frames⟩ ∧
          Heading.function.read f.text = some (⟨.function, name, ty, paramTys⟩, params) := by
  have s := ModuleSetting.named (σ := σ) p
  refine ⟨((body_restores spelled name ty paramTys _ (.refl e)).of_run hrun).2.2.2.1, ?_⟩
  obtain ⟨hopen, e₄, hinside, -⟩ := exists_of_run_nested hrun
  obtain ⟨params, e₁, hdrawn, hinside⟩ := exists_of_run_bind hinside
  obtain ⟨body, e₂, hbody, hinside⟩ := exists_of_run_bind hinside
  obtain ⟨result, e₃, -, hend⟩ := exists_of_run_bind hinside
  cases hend
  obtain ⟨he₁, -, -, htyped⟩ := (s.drawParameters (s.opened he trivial) hparams _ (.refl _)).of_run hdrawn
  obtain ⟨parts, hparts, rfl, hspells, hscope⟩ := htyped.exists_parts
  refine ⟨_, parts.map Parameter.binding, e₁, rfl, .nested hopen (.right hdrawn (.left (.here hbody))), ?_, ?_⟩
  · rw [hscope]
    exact congrArg (Scope.mk · _) (List.append_nil _)
  · refine Heading.read_function hspelled hlegible hname hparts fun part hpart => ⟨hspells part hpart, ?_, ?_⟩
    · exact (hparams part.2 (List.mem_map_of_mem hpart)).legible he hmax
    · have hmem : Parameter.binding part ∈ e₁.scope.current := by
        rw [hscope]
        exact List.mem_append_left _ (List.mem_reverse.mpr (List.mem_map_of_mem hpart))
      exact (he₁.valid.bindings _ List.mem_cons_self _ hmem).name.1

/-- What the generation of a function adds to the scope, and where its body runs, is what the text is read back as. -/
def RecordsFunction (p : Profile) (g : Gen σ Item) (e : Engine σ) (item : Item) (e' : Engine σ) : Prop :=
  ∃ f b params inner, item = .function f ∧ e'.scope = e.scope.define b ∧
    RunsInside g e (Stmt.several p p.functionBody) f.body inner ∧
      inner.scope = ⟨params.reverse, (e.scope.define b).frames⟩ ∧ Heading.function.read item.text = some (b, params)

theorem drawMain_records (he : e.Named p) (hmax : p.maxDimension < 0x8000000000000000) {item : Item}
    (hrun : (drawMain p).run e = .ok (item, e')) : RecordsFunction p (drawMain p) e item e' := by
  have s := ModuleSetting.named (σ := σ) p
  obtain ⟨_, e₁, hreport, hrun⟩ := exists_of_run_bind hrun
  obtain ⟨-, h₁⟩ := Keeps.report.of_run (.refl e) hreport
  obtain ⟨_, e₂, hdefine, hinside⟩ := exists_of_run_bind hrun
  have hdeclared := s.entry (s.agrees he h₁) trivial
  cases hdefine
  have hlegible : Ty.Legible .void := trivial
  have hname : IsName entryName := Heading.isName_of_isWord (by decide)
  have hinside : (drawInside p (.plain .void) entryName .void []).run _ = .ok (item, e') := hinside
  obtain ⟨hscope, f, params, inner, rfl, hinner, hframe, hread⟩ :=
    drawInside_records hdeclared hmax (.plain rfl) hlegible hname (List.forall_mem_nil _) hinside
  rw [h₁.scope] at hscope hframe
  exact ⟨f, _, params, inner, rfl, hscope, .right hreport (.right rfl hinner), hframe, hread⟩

theorem drawFunction_records (he : e.Named p) (hmax : p.maxDimension < 0x8000000000000000) {item : Item}
    (hrun : (drawFunction p).run e = .ok (item, e')) : RecordsFunction p (drawFunction p) e item e' := by
  have s := ModuleSetting.named (σ := σ) p
  rw [drawFunction_eq] at hrun ⊢
  obtain ⟨ty, e₁, hdrawn, hrun⟩ := exists_of_run_bind hrun
  obtain ⟨hty, h₁⟩ := (drawReturnTy_keeps p).of_run (.refl e) hdrawn
  obtain ⟨name, e₂, hnamed, hrun⟩ := exists_of_run_bind hrun
  obtain ⟨⟨hfree, hled⟩, h₂⟩ := (Keeps.freeFunctionName ty).of_run h₁ hnamed
  obtain ⟨count, e₃, hcount, hrun⟩ := exists_of_run_bind hrun
  obtain ⟨-, h₃⟩ := (Keeps.countIn _).of_run h₂ hcount
  obtain ⟨paramTys, e₄, hparams, hrun⟩ := exists_of_run_bind hrun
  obtain ⟨⟨-, hsized⟩, h₄⟩ := ((Keeps.ty p true).times count).of_run h₃ hparams
  obtain ⟨_, e₅, hreport, hrun⟩ := exists_of_run_bind hrun
  obtain ⟨-, h₅⟩ := Keeps.report.of_run h₄ hreport
  obtain ⟨_, e₆, hdefine, hrun⟩ := exists_of_run_bind hrun
  cases hdefine
  obtain ⟨spelled, e₇, hspell, hinside⟩ := exists_of_run_bind hrun
  obtain ⟨hspelled, h₇⟩ := (Keeps.spell p ty).of_run (.refl _) hspell
  have he₅ := s.agrees he h₅
  have hreference := Name.isReference_of_function hled
  rw [← h₅.records] at hty hsized
  rw [← h₅.scope] at hfree
  have hvalid : Binding.Valid e₅.records p.dimensionBound ⟨.function, name, ty, paramTys⟩ :=
    ⟨hreference, hty.imp_left fun hvoid => ⟨rfl, hvoid⟩, hsized⟩
  have hdeclared := s.function he₅ hvalid rfl hfree hled
  have hlegible : ty.Legible := by
    rcases hty with rfl | hty
    · trivial
    · exact hty.legible he₅ hmax
  obtain ⟨hscope, f, params, inner, rfl, hinner, hframe, hread⟩ := drawInside_records (s.agrees hdeclared h₇) hmax
    hspelled hlegible hreference.1 (h₇.records ▸ hsized) hinside
  have hkept : e₇.scope = e.scope.define ⟨.function, name, ty, paramTys⟩ := by
    rw [h₇.scope, ← h₅.scope]
    rfl
  rw [hkept] at hscope hframe
  exact ⟨f, _, params, inner, rfl, hscope, .right hdrawn (.right hnamed (.right hcount (.right hparams
    (.right hreport (.right rfl (.right hspell hinner)))))), hframe, hread⟩

/-! ## Records -/

/-- The text of a record is read back as the shape that is registered. -/
theorem drawRecord_records (he : e.Named p) (hmax : p.maxDimension < 0x8000000000000000) {item : Item}
    (hrun : (drawRecord p).run e = .ok (item, e')) : ∃ shape : Shape,
      e'.records = ⟨e.records.shapes ++ [shape]⟩ ∧ Heading.record.read item.text = some shape := by
  obtain ⟨-, -, id, parts, rfl, hled, hparts, hrecords⟩ := (drawRecord_enters e).of_run hrun
  refine ⟨_, hrecords, Heading.read_record (hled.isName (by decide)) fun part hpart => ?_⟩
  have hpart := hparts part hpart
  have hty := hpart.ty.mono (List.nil_subset e.records.ids) (Nat.le_refl _)
  exact ⟨hpart.declares, hty.legible he hmax, hpart.name⟩

end Module

/-! ## Text and state -/

/-- From every reachable state, where words hold the dimensions that a profile asks for, the text of a declaration is
read back as what the declaration adds to the state: the binding of a value or variable, that of a loop over entries
in the frame of its body, the entry of a function with the parameters in the frame of its body, and the shape of a
record. -/
theorem declarations_read_back (hreachable : e.Reachable p) (hmax : p.maxDimension < 0x8000000000000000) :
    (∀ g stmt, (g = Stmt.drawValue p ∨ g = Stmt.drawVariable p ∨
        ∃ ty, ty.Sized e.records p.dimensionBound ∧ g = Stmt.drawValueOf p ty) →
      g.run e = .ok (stmt, e') →
        ∃ b, e'.scope = e.scope.define b ∧ Heading.declaration.read stmt.text = some b) ∧
    (∀ deeper stmt, (Stmt.drawForeach p deeper).run e = .ok (stmt, e') →
      ∃ b isVariable spelled name collection body inner, stmt = .foreach isVariable spelled name collection body ∧
        RunsInside (Stmt.drawForeach p deeper) e deeper body inner ∧ inner.scope = e.scope.descend.define b ∧
          Heading.loop.read stmt.text = some b) ∧
    (∀ g item, g = Module.drawFunction p ∨ g = Module.drawMain p → g.run e = .ok (item, e') →
      ∃ f b params inner, item = .function f ∧ e'.scope = e.scope.define b ∧
        RunsInside g e (Stmt.several p p.functionBody) f.body inner ∧
          inner.scope = ⟨params.reverse, (e.scope.define b).frames⟩ ∧
            Heading.function.read item.text = some (b, params)) ∧
    ∀ item, (Module.drawRecord p).run e = .ok (item, e') →
      ∃ shape : Shape, e'.records = ⟨e.records.shapes ++ [shape]⟩ ∧
        Heading.record.read item.text = some shape := by
  have he := hreachable.named
  refine ⟨fun g stmt hg hrun => ?_, fun deeper stmt hrun => Stmt.drawForeach_records he hmax hrun,
    fun g item hg hrun => ?_, fun item hrun => Module.drawRecord_records he hmax hrun⟩
  · rcases hg with rfl | rfl | ⟨ty, hty, rfl⟩
    · exact (Stmt.drawValue_records he hmax).of_run hrun
    · exact (Stmt.drawVariable_records he hmax).of_run hrun
    · exact (Stmt.drawValueOf_records he hmax (.refl e) hty).of_run hrun
  · rcases hg with rfl | rfl
    · exact Module.drawFunction_records he hmax hrun
    · exact Module.drawMain_records he hmax hrun

/-- A function of the small profile that returns a matrix. -/
theorem declarations_read_back_function :
    let e : Engine Congruential := Engine.start .small ⟨⟨34⟩, fun _ => 9⟩
    let text := "function matrix <int> [1 * 1][1 * 3] readRotationField(bool stateEnabled) " ++
      "\x7b return [[32, 517, 7]] ; \x7d "
    let entry : Binding := ⟨.function, "readRotationField", .matrix .int 1 3, [.bool]⟩
    ∃ item e', (Module.drawFunction .small).run e = .ok (item, e') ∧ item.text = text ∧
      e'.scope = Scope.empty.define entry ∧
        Heading.function.read item.text = some (entry, [⟨.variable, "stateEnabled", .bool, []⟩]) := by
  intro e text entry
  have hdrawn : ((Module.drawFunction .small).run e).toOption.map (fun made => (made.1.text, made.2.scope)) =
      some (text, Scope.empty.define entry) := by decide +kernel
  obtain ⟨⟨item, e'⟩, hrun, hmade⟩ := exists_of_toOption_map hdrawn
  obtain ⟨htext, hentry⟩ := Prod.mk.inj hmade
  have hread := (declarations_read_back (.start _) (by decide)).2.2.1 _ item (.inl rfl) hrun
  obtain ⟨f, b, params, inner, -, hscope, -, -, hread⟩ := hread
  have hparams : (Heading.function.read text).map (·.2) = some [⟨.variable, "stateEnabled", .bool, []⟩] := by
    decide +kernel
  rw [hentry] at hscope
  obtain rfl : entry = b := List.head_eq_of_cons_eq (congrArg Scope.current hscope)
  rw [← htext, hread] at hparams
  exact ⟨item, e', hrun, htext, hentry, hread.trans (congrArg (fun params => some (_, params)) (Option.some.inj hparams))⟩

end TensorFuzz
