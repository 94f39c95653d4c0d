import TensorFuzz.Module.Generate
import TensorFuzz.Proofs.Module.Typing
import TensorFuzz.Proofs.Stmt.Generation

/-!
# Generated modules

Items are typed in the scope and the registry that they are generated in. Beside what statements ask of an invariant
of the state, it has to go through the declaration of functions and records, and the frame that the fields of a
record are named in has one of its own (`ModuleSetting`).
-/

namespace TensorFuzz

open Check (IsName IsReference)
open Name (Led firstWords functionWords patterns)

variable {σ : Type}

/-! ## Fields -/

/-- The state inside the frame that the fields of a record are named in, which was opened at another state. -/
structure FieldFrame (p : Profile) (e e' : Engine σ) : Prop where
  outer : e'.scope.outer = e.scope.frames
  records : e'.records = e.records
  stmtDepth : e'.stmtDepth = e.stmtDepth
  bindings : ∀ b ∈ e'.scope.current, b.Valid .empty p.dimensionBound ∧ b.isFunction = false
  distinct : e'.scope.currentNames.Nodup

/-- The state in which the first field of a record is drawn. -/
def Engine.naming (e : Engine σ) : Engine σ := { e with scope := e.scope.descend }

namespace FieldFrame

variable {p : Profile} {e e' e'' : Engine σ}

theorem naming (p : Profile) (e : Engine σ) : FieldFrame p e e.naming where
  outer := rfl
  records := rfl
  stmtDepth := rfl
  bindings _ hb := absurd hb List.not_mem_nil
  distinct := List.nodup_nil

theorem agrees (h : FieldFrame p e e') (he : e'.Agrees e'') : FieldFrame p e e'' where
  outer := he.scope ▸ h.outer
  records := he.records.trans h.records
  stmtDepth := he.stmtDepth.trans h.stmtDepth
  bindings := he.scope ▸ h.bindings
  distinct := he.scope ▸ h.distinct

theorem declared (h : FieldFrame p e e') {b : Binding} (hb : b.Valid .empty p.dimensionBound)
    (hvalue : b.isFunction = false) (hfree : b.name ∉ e'.scope.currentNames) :
    FieldFrame p e { e' with scope := e'.scope.define b } :=
  { h with
    bindings := fun c hc => by
      rcases List.mem_cons.mp hc with rfl | hc
      · exact ⟨hb, hvalue⟩
      · exact h.bindings c hc
    distinct := List.nodup_cons.mpr ⟨hfree, h.distinct⟩ }

theorem frames (h : FieldFrame p e e') : e'.scope.frames = e'.scope.current :: e.scope.frames := by
  rw [Scope.frames, h.outer]

/-- Back outside, the state is as it was. -/
theorem exit (h : FieldFrame p e e') : e'.scope.exit = .ok e.scope := by
  rw [Scope.exit, h.outer]
  rfl

end FieldFrame

/-- A field that may stand in a record, and its declaration. -/
structure FieldDrawn (p : Profile) (part : Field × FieldDecl) : Prop where
  declares : part.2.Declares part.1
  name : IsName part.1.name
  ty : part.1.ty.Sized .empty p.dimensionBound

/-! ## Items -/

/-- What a run makes of a state: items that are typed in it, and leave the state after the run. -/
def Made (holds : Registry → Holding) (I : Engine σ → Prop) (e : Engine σ) (items : List Item) (e' : Engine σ) :
    Prop :=
  I e' ∧ e'.stmtDepth = e.stmtDepth ∧ Item.AllTyped holds e.scope e.records items e'.scope e'.records

namespace Made

variable {holds : Registry → Holding} {I : Engine σ → Prop} {e e' e'' : Engine σ}

theorem nil (h : I e') (he : e.Agrees e') : Made holds I e [] e' := by
  refine ⟨h, he.stmtDepth, ?_⟩
  rw [he.scope, he.records]
  exact .nil _ _

theorem function {f : Function} (h : I e') (hrecords : e'.records = e.records) (hdepth : e'.stmtDepth = e.stmtDepth)
    (hf : f.Typed e.records (holds e.records) e.scope e'.scope) : Made holds I e [.function f] e' := by
  refine ⟨h, hdepth, .cons (.function hf) ?_⟩
  rw [hrecords]
  exact .nil _ _

theorem append {items items' : List Item} (h : Made holds I e items e') (h' : Made holds I e' items' e'') :
    Made holds I e (items ++ items') e'' :=
  ⟨h'.1, h'.2.1.trans h.2.1, h.2.2.append h'.2.2⟩

end Made

/-- As many drawn fields as a record may have make a shape that may be registered. -/
theorem Shape.Valid.of_drawn {p : Profile} {id : String} {parts : List (Field × FieldDecl)} (hid : IsName id)
    (hcount : p.recordFields.min ≤ parts.length ∧ parts.length ≤ max p.recordFields.min p.recordFields.max)
    (hparts : ∀ part ∈ parts, FieldDrawn p part) (hdistinct : (parts.map (·.1.name)).Nodup) :
    Shape.Valid p ⟨id, parts.map (·.1)⟩ where
  id := hid
  count := by simpa using hcount
  names := by simpa using fun field decl h => (hparts (field, decl) h).name
  distinct := by rwa [List.map_map]
  tys := by simpa using fun field decl h => (hparts (field, decl) h).ty

variable [RandomSource σ]

namespace Module

open Gen

variable {p : Profile} {safe : Faults} {e e' : Engine σ}

theorem drawField_gives (h : FieldFrame p e e') : Gives safe (FieldFrame p e) (drawField p) e' fun part e'' =>
    FieldFrame p e e'' ∧ FieldDrawn p part ∧ e''.scope.currentNames = part.1.name :: e'.scope.currentNames := by
  refine ((Keeps.ty p false).within (fun _ => h.agrees) (.refl e')).bind fun ty e₁ ⟨hty, h₁⟩ => ?_
  refine ((Keeps.freeName ty).within (fun _ => h.agrees) h₁).bind fun name e₂ ⟨hname, h₂⟩ => ?_
  have hreference := Name.isReference_of_variable hname.2
  have hdeclared : FieldFrame p e { e₂ with scope := e₂.scope.defineVariable name ty } :=
    (h.agrees h₂).declared ⟨hreference, .inr hty, by simp⟩ rfl (h₂.scope ▸ hname.1)
  refine (Gives.update hdeclared rfl).bind fun _ e₃ heq => ?_
  subst heq
  refine (Keeps.coin.within (fun _ => hdeclared.agrees) (.refl _)).bind fun isMutable e₄ ⟨_, h₄⟩ => ?_
  refine ((Keeps.spell p ty).within (fun _ => hdeclared.agrees) h₄).bind fun spelled e₅ ⟨hspelled, h₅⟩ => .pure ?_
  refine ⟨hdeclared.agrees h₅, ⟨⟨hspelled, rfl, rfl⟩, hreference.1, hty⟩, ?_⟩
  rw [h₅.scope]
  show name :: e₂.scope.currentNames = name :: e'.scope.currentNames
  rw [h₂.scope]

theorem drawFields_gives (h : FieldFrame p e e') (n : Nat) :
    Gives safe (FieldFrame p e) (times (drawField p) n) e' fun parts e'' => FieldFrame p e e'' ∧ parts.length = n ∧
      (∀ part ∈ parts, FieldDrawn p part) ∧
        e''.scope.currentNames = (parts.map (·.1.name)).reverse ++ e'.scope.currentNames := by
  induction n generalizing e' with
  | zero => exact ⟨h, rfl, by simp, rfl⟩
  | succ n ih =>
    refine (drawField_gives h).bind fun part e₁ ⟨h₁, hpart, hnames⟩ => ?_
    refine (ih h₁).bind fun parts e₂ ⟨h₂, hlength, hparts, hnames'⟩ => .pure ?_
    refine ⟨h₂, by simp [hlength], ?_, by simp [hnames', hnames]⟩
    rintro other (_ | ⟨_, hother⟩)
    · exact hpart
    · exact hparts other hother

/-! ## Names and records -/

/-- A name for a record is neither registered nor declared in the innermost frame. -/
theorem freeRecordName_numbered : Keeps safe e (freeRecordName : Gen σ String) fun id =>
    id ∉ e.records.ids ∧ Name.Numbered (Name.CamelCased (firstWords Name.records)) id := by
  refine Keeps.look fun e' he => ?_
  refine (Keeps.draw (Name.unique_yields (Name.drawVariable_yields (.record "")) _)).mono fun id hid => ?_
  exact ⟨fun hmem => hid.1 (List.mem_append_left _ (he.records ▸ hmem)), hid.2⟩

theorem freeRecordName_keeps : Keeps safe e (freeRecordName : Gen σ String) fun id =>
    id ∉ e.records.ids ∧ Led (firstWords Name.records) id :=
  freeRecordName_numbered.mono fun _ h => ⟨h.1, h.2.led⟩

theorem defineRecord_gives {I : Engine σ → Prop} {id : String} (hfree : id ∉ e.records.ids) (fields : List Field)
    (hI : ∀ e', Engine.Agrees { e with records := ⟨e.records.shapes ++ [⟨id, fields⟩]⟩ } e' → I e') :
    Gives safe I (defineRecord id fields) e fun _ e' =>
      Engine.Agrees { e with records := ⟨e.records.shapes ++ [⟨id, fields⟩]⟩ } e' := by
  refine .get (.orFault (Registry.define_of_free hfree fields) ?_)
  refine (Gives.put (hI _ (.refl _)) rfl).bind fun _ e₁ heq => ?_
  subst heq
  exact (Keeps.report.within hI (.refl _)).post fun _ _ h => h.2

/-! ## Parts of the generator -/

/-- The return type of a function. -/
def drawReturnTy (p : Profile) : Gen σ Ty := do if ← chance (.ratio 7 10) then Gen.ty p true else pure .void

theorem drawReturnTy_keeps (p : Profile) : Keeps safe e (drawReturnTy p) fun ty =>
    ty = .void ∨ ty.Sized e.records p.dimensionBound :=
  (Keeps.chance _).bind fun _ _ => .ite (fun _ => (Keeps.ty p true).mono fun _ => .inr) fun _ => .pure (.inl rfl)

/-- The inside of a function that is declared. -/
def drawInside (p : Profile) (spelled : SpelledTy) (name : String) (ty : Ty) (paramTys : List Ty) : Gen σ Item :=
  nested do
    let params ← paramTys.mapM (drawParameter p)
    let body ← Stmt.several p p.functionBody
    return .function ⟨spelled, name, params, body, ← drawResult p ty⟩

theorem drawFunction_eq (p : Profile) : (drawFunction p : Gen σ Item) = (do
    let ty ← drawReturnTy p
    let name ← freeFunctionName ty
    let paramTys ← times (Gen.ty p true) (← countIn p.functionParams)
    report (.declareFunction name ty paramTys.length)
    modifyScope (·.defineFunction name ty paramTys)
    let spelled ← spell p ty
    drawInside p spelled name ty paramTys) := by
  rw [drawFunction, drawReturnTy, bind_assoc]
  refine bind_congr fun isValue => ?_
  cases isValue <;> rfl

/-- A function or a record, as items are drawn. -/
def drawItem (p : Profile) : Gen σ Item := do
  if ← chance (.ratio 7 10) then drawFunction p else drawRecord p

theorem drawItems_succ (p : Profile) (hasMain : Bool) (count : Nat) :
    (drawItems p hasMain (count + 1) : Gen σ (List Item)) = do
      let early ← drawEarlyMain p hasMain
      let item ← drawItem p
      return early ++ item :: (← drawItems p (hasMain || !early.isEmpty) count) := by
  rw [drawItems]
  refine bind_congr fun early => ?_
  rw [drawItem, bind_assoc]
  refine bind_congr fun isFunction => ?_
  cases isFunction <;> rfl

end Module

/-! ## Modules -/

/-- The body of a function may be generated at a statement level. -/
def CanHoldBody (p : Profile) (opens : Nat → Prop) (depth : Nat) : Prop :=
  opens depth ∧ CanNest opens (p.maxStmtDepth - (depth + 1)) (depth + 1)

/-- What the generation of modules rests on beside that of statements: functions and records may be declared, and
all states have the property `J`, also those in the frames that fields are named in. What is known of the state in
which such a frame is opened is `V`. The entry function is declared in scopes that are `free` for it. -/
structure ModuleSetting (p : Profile) (safe : Faults) (opens : Nat → Prop) (holds : Registry → Holding)
    (I J V : Engine σ → Prop) (free : Scope → Prop) : Prop extends Setting p safe opens holds I where
  within {e : Engine σ} : I e → J e
  naming {e e' : Engine σ} {n : Nat} : I e → V e → FieldFrame p e e' →
    Gen.Visits (Gen.times (Module.drawField p) n) e.naming e' → J e'
  function {e : Engine σ} {b : Binding} : I e → b.Valid e.records p.dimensionBound → b.isFunction = true →
    b.name ∉ e.scope.currentNames → Led functionWords b.name → I { e with scope := e.scope.define b }
  record {e : Engine σ} {shape : Shape} : I e → shape.Valid p → shape.id ∉ e.records.ids →
    Led (firstWords Name.records) shape.id → I { e with records := ⟨e.records.shapes ++ [shape]⟩ }
  entry {e : Engine σ} : I e → free e.scope →
    I { e with scope := e.scope.defineFunction Module.entryName .void [] }
  free {scope : Scope} {b : Binding} : free scope → Led functionWords b.name → free (scope.define b)

namespace ModuleSetting

open Gen TensorFuzz.Module

variable {p : Profile} {safe : Faults} {opens : Nat → Prop} {holds : Registry → Holding} {I J V : Engine σ → Prop}
  {free : Scope → Prop} {e₀ : Engine σ} (s : ModuleSetting p safe opens holds I J V free) (h₀ : I e₀)
include s h₀

/-! ## Functions -/

theorem drawParameters {tys : List Ty} (htys : ∀ ty ∈ tys, ty.Sized e₀.records p.dimensionBound) :
    Threads safe I e₀ (tys.mapM (drawParameter p)) fun params scope =>
      Parameter.AllTyped e₀.scope params tys scope := by
  induction tys generalizing e₀ with
  | nil =>
    rw [List.mapM_nil]
    exact s.pure h₀ (.nil _)
  | cons ty tys ih =>
    rw [List.mapM_cons]
    have hty := htys ty List.mem_cons_self
    have hparam : Threads safe I e₀ (drawParameter p ty) fun param scope =>
        param.ty.Spells ty ∧ param.name ∉ e₀.scope.currentNames ∧ scope = e₀.scope.defineVariable param.name ty := by
      refine s.quietly h₀ (Keeps.freeName ty) fun name hname => ?_
      refine s.quietly h₀ (Keeps.spell p ty) fun spelled hspelled => ?_
      have hdeclared := s.fresh h₀ (nofun : BindingKind.variable ≠ .function) hty hname
      exact s.declare hdeclared fun e₁ h₁ _ _ hscope => s.pure h₁ ⟨hspelled, hname.1, hscope⟩
    refine hparam.bind fun param e₁ h₁ hrecords _ ⟨hspelled, hfree, hscope⟩ => ?_
    have hrest := ih h₁ fun other hother => hrecords ▸ htys other (List.mem_cons_of_mem _ hother)
    refine hrest.bind fun params e₂ h₂ _ _ hparams => s.pure h₂ ?_
    exact .cons hspelled hfree (hscope ▸ hparams)

theorem drawResult {ty : Ty} (hty : ty = .void ∨ ty.Sized e₀.records p.dimensionBound) :
    Keeps safe e₀ (Module.drawResult p ty) (ResultTyped (holds e₀.records) e₀.scope ty) := by
  refine .ite (fun hvoid => .pure ?_) fun hvoid => ?_
  · have hvoid : ty = .void := by cases ty <;> first | rfl | cases hvoid
    exact ⟨by simp [hvoid], by simp⟩
  · have hne : ty ≠ .void := fun heq => hvoid (heq ▸ rfl)
    refine (s.expr h₀ (hty.resolve_left hne)).bind fun x hx => .pure ⟨by simp [hne], ?_⟩
    rintro _ ⟨⟩
    exact hx

theorem drawInside (hbody : CanHoldBody p opens e₀.stmtDepth) {ty : Ty} {paramTys : List Ty}
    (hty : ty = .void ∨ ty.Sized e₀.records p.dimensionBound)
    (hparams : ∀ ty ∈ paramTys, ty.Sized e₀.records p.dimensionBound) (spelled : SpelledTy) (name : String) :
    Threads safe I e₀ (Module.drawInside p spelled name ty paramTys)
      fun item scope => scope = e₀.scope ∧ ∃ inner f, item = .function f ∧ f.ty = spelled ∧ f.name = name ∧
        f.BodyTyped e₀.records (holds e₀.records) e₀.scope.descend ty paramTys inner := by
  have hopened := s.opened h₀ hbody.1
  refine s.nested h₀ hbody.1 ?_ fun _ _ ⟨_, _, _, _, h⟩ => h.outer
  refine (s.drawParameters hopened hparams).bind fun params e₁ h₁ hrecords hdepth htyped => ?_
  have hstmts := s.several h₁ (by rw [hdepth]; exact hbody.2) p.functionBody
  refine hstmts.bind fun body e₂ h₂ hrecords' _ hbody => ?_
  have hrecords₂ : e₂.records = e₀.records := hrecords'.trans hrecords
  refine s.quietly h₂ (s.drawResult h₂ (hrecords₂ ▸ hty)) fun result hresult => s.pure h₂ ?_
  rw [hrecords₂] at hresult
  rw [hrecords] at hbody
  exact ⟨_, rfl, rfl, rfl, htyped, hbody, hresult⟩

theorem drawMain (hbody : CanHoldBody p opens e₀.stmtDepth) (hfree : free e₀.scope) :
    Threads safe I e₀ (Module.drawMain p) fun item scope =>
      ∃ f, item = .function f ∧ f.Typed e₀.records (holds e₀.records) e₀.scope scope := by
  refine s.quietly h₀ Keeps.report fun _ _ => ?_
  refine s.declare (s.entry h₀ hfree) fun e₁ h₁ hrecords hdepth hscope => ?_
  have hvoid : Ty.void = .void ∨ Ty.void.Sized e₁.records p.dimensionBound := .inl rfl
  have hinside := s.drawInside h₁ (by rwa [hdepth]) hvoid (List.forall_mem_nil _) (.plain .void) entryName
  refine hinside.mono fun item scope ⟨hkept, inner, f, hitem, hspelled, hname, htyped⟩ => ⟨f, hitem, ?_⟩
  rw [hrecords, hscope, ← hname] at htyped
  rw [hkept, hscope, ← hname]
  exact .declare (hspelled ▸ .plain rfl) htyped

theorem drawFunction (hbody : CanHoldBody p opens e₀.stmtDepth) :
    Threads safe I e₀ (Module.drawFunction p) fun item scope =>
      (∃ f, item = .function f ∧ f.Typed e₀.records (holds e₀.records) e₀.scope scope) ∧
        (free e₀.scope → free scope) := by
  rw [drawFunction_eq]
  refine s.quietly h₀ (drawReturnTy_keeps p) fun ty hty => ?_
  refine s.quietly h₀ (Keeps.freeFunctionName ty) fun name hname => ?_
  refine s.quietly h₀ (Keeps.countIn _) fun count _ => ?_
  refine s.quietly h₀ ((Keeps.ty p true).times count) fun paramTys ⟨_, hparams⟩ => ?_
  refine s.quietly h₀ Keeps.report fun _ _ => ?_
  have hvalid : Binding.Valid e₀.records p.dimensionBound ⟨.function, name, ty, paramTys⟩ :=
    ⟨Name.isReference_of_function hname.2, hty.imp_left fun hvoid => ⟨rfl, hvoid⟩, hparams⟩
  refine s.declare (s.function h₀ hvalid rfl hname.1 hname.2) fun e₁ h₁ hrecords hdepth hscope => ?_
  refine s.quietly h₁ (Keeps.spell p ty) fun spelled hspelled => ?_
  have hinside := s.drawInside h₁ (by rwa [hdepth]) (hrecords ▸ hty) (hrecords ▸ hparams) spelled name
  refine hinside.mono fun item scope ⟨hkept, inner, f, hitem, hspelled', hname', htyped⟩ => ?_
  refine ⟨⟨f, hitem, ?_⟩, fun hfree => hkept ▸ hscope ▸ s.free hfree hname.2⟩
  rw [hrecords, hscope, ← hname'] at htyped
  rw [hkept, hscope, ← hname']
  exact .declare (hspelled' ▸ hspelled) htyped

/-! ## Records -/

/-- The fields of a record are drawn in a frame that is dropped again. -/
theorem drawFields (hV : V e₀) (n : Nat) :
    Gives safe J (times (drawField p) n) e₀.naming fun parts e => FieldFrame p e₀ e ∧ parts.length = n ∧
      (∀ part ∈ parts, FieldDrawn p part) ∧ (parts.map (·.1.name)).Nodup := by
  have hfields : Gives safe (FieldFrame p e₀) (times (drawField p) n) e₀.naming _ :=
    drawFields_gives (.naming p e₀) n
  refine hfields.trace.mono (fun e he => s.naming h₀ hV he.1 he.2) fun parts e h => ?_
  obtain ⟨⟨hframe, hlength, hparts, hnames⟩, -⟩ := h
  refine ⟨hframe, hlength, hparts, ?_⟩
  have hdistinct := hframe.distinct
  rw [hnames] at hdistinct
  exact (List.pairwise_reverse.mp (List.nodup_append.mp hdistinct).1).imp Ne.symm


theorem drawRecord (hV : ∀ e, Visits (Module.drawRecord p) e₀ e → V e) :
    Gives safe J (Module.drawRecord p) e₀ fun item e => I e ∧ e.scope = e₀.scope ∧ e.stmtDepth = e₀.stmtDepth ∧
      item.Typed holds e₀.scope e₀.records e.scope e.records := by
  have hJ (e : Engine σ) (he : e₀.Agrees e) : J e := s.within (s.agrees h₀ he)
  refine .follow hV (freeRecordName_keeps.within hJ (.refl e₀)) fun id e₁ ⟨⟨hfree, hled⟩, h₁⟩ hV => ?_
  refine .follow hV ((Keeps.countIn _).within hJ h₁) fun count e₂ ⟨hcount, h₂⟩ hV => ?_
  have hI := s.agrees h₀ h₂
  have hnaming := s.naming (n := count) hI (hV e₂ (.here _ _)) (.naming p e₂) (.here _ _)
  refine (Gives.update hnaming rfl).bind fun _ e₃ heq => ?_
  subst heq
  refine (s.drawFields hI (hV e₂ (.here _ _)) count).bind fun parts e₄ ⟨hframe, hlength, hparts, hdistinct⟩ => ?_
  refine .get (.orFault hframe.exit ?_)
  have hagrees : e₀.Agrees { e₄ with scope := e₂.scope } :=
    h₂.trans ⟨rfl, hframe.records, hframe.stmtDepth⟩
  refine (Gives.update (hJ _ hagrees) rfl).bind fun _ e₅ heq => ?_
  subst heq
  have hshape : Shape.Valid p ⟨id, parts.map (·.1)⟩ :=
    .of_drawn (Led.isName hled (by decide)) (hlength ▸ hcount) hparts hdistinct
  have hids : id ∉ e₄.records.ids := by rwa [hframe.records, h₂.records]
  have hregistered := s.record (s.agrees h₀ hagrees) hshape hids hled
  have hdefine : Gives safe J (defineRecord id (parts.map (·.1))) { e₄ with scope := e₂.scope } _ :=
    defineRecord_gives (e := { e₄ with scope := e₂.scope }) hids _ fun e he => s.within (s.agrees hregistered he)
  refine hdefine.bind fun _ e₆ h₆ => .pure ?_
  refine ⟨s.agrees hregistered h₆, h₆.scope.trans hagrees.scope, h₆.stmtDepth.trans hagrees.stmtDepth, ?_⟩
  rw [h₆.scope, h₆.records]
  show Item.Typed holds e₀.scope e₀.records _ e₂.scope ⟨e₄.records.shapes ++ _⟩
  rw [h₂.scope, hframe.records, h₂.records]
  refine .record hfree (by simp) fun part hpart => ?_
  rw [List.zip_map'] at hpart
  obtain ⟨drawn, hdrawn, rfl⟩ := List.mem_map.mp hpart
  exact (hparts drawn hdrawn).declares

/-! ## Items -/

theorem drawMain_gives (hbody : CanHoldBody p opens e₀.stmtDepth) (hfree : free e₀.scope) {e : Engine σ}
    (he : e₀.Agrees e) : Gives safe J (Module.drawMain p) e fun item e' => Made holds I e₀ [item] e' := by
  refine ((s.drawMain h₀ hbody hfree) e he).mono (fun _ => s.within) fun item e' h => ?_
  obtain ⟨h', hrecords, hdepth, f, rfl, hf⟩ := h
  exact Made.function h' hrecords hdepth hf

/-- After the entry function there is no need for a scope that is free for it. -/
theorem drawEarlyMain (hbody : CanHoldBody p opens e₀.stmtDepth) {hasMain : Bool}
    (hfree : hasMain = false → free e₀.scope) :
    Gives safe J (Module.drawEarlyMain p hasMain) e₀ fun early e => Made holds I e₀ early e ∧
      ((hasMain || !early.isEmpty) = false → free e.scope) := by
  have hJ (e : Engine σ) (he : e₀.Agrees e) : J e := s.within (s.agrees h₀ he)
  have hnone {e : Engine σ} (he : e₀.Agrees e) : Made holds I e₀ [] e ∧
      ((hasMain || !([] : List Item).isEmpty) = false → free e.scope) :=
    ⟨Made.nil (s.agrees h₀ he) he, fun h => he.scope ▸ hfree (by simpa using h)⟩
  refine .ite (fun _ => .pure (hnone (.refl _))) fun hmain => ?_
  refine ((Keeps.chance _).within hJ (.refl _)).bind fun _ e₁ ⟨_, h₁⟩ => .ite (fun _ => ?_) fun _ => .pure (hnone h₁)
  refine (s.drawMain_gives h₀ hbody (hfree (by simpa using hmain)) h₁).bind fun item e₂ h₂ => .pure ⟨h₂, ?_⟩
  simp

theorem drawItem (hbody : CanHoldBody p opens e₀.stmtDepth) (hV : ∀ e, Visits (Module.drawItem p) e₀ e → V e) :
    Gives safe J (Module.drawItem p) e₀ fun item e => Made holds I e₀ [item] e ∧ (free e₀.scope → free e.scope) := by
  have hJ (e : Engine σ) (he : e₀.Agrees e) : J e := s.within (s.agrees h₀ he)
  refine .follow hV ((Keeps.chance _).within hJ (.refl _)) fun isFunction e₁ ⟨_, h₁⟩ hV => ?_
  have hI := s.agrees h₀ h₁
  cases isFunction with
  | true =>
    refine ((s.drawFunction h₀ hbody) e₁ h₁).mono (fun _ => s.within) fun item e h => ?_
    obtain ⟨h', hrecords, hdepth, ⟨f, rfl, hf⟩, hfree⟩ := h
    exact ⟨Made.function h' hrecords hdepth hf, hfree⟩
  | false =>
    refine (s.drawRecord hI hV).post fun item e ⟨h', hscope, hdepth, htyped⟩ => ⟨⟨h', ?_, ?_⟩, ?_⟩
    · exact hdepth.trans h₁.stmtDepth
    · rw [← h₁.scope, ← h₁.records]
      exact .cons htyped (.nil _ _)
    · rw [hscope, h₁.scope]
      exact id

theorem drawItems (hbody : CanHoldBody p opens e₀.stmtDepth) {hasMain : Bool}
    (hfree : hasMain = false → free e₀.scope) (count : Nat)
    (hV : ∀ e, Visits (Module.drawItems p hasMain count) e₀ e → V e) :
    Gives safe J (Module.drawItems p hasMain count) e₀ (Made holds I e₀) := by
  induction count generalizing e₀ hasMain with
  | zero =>
    refine .ite (fun _ => .pure (Made.nil h₀ (.refl _))) fun hmain => ?_
    exact (s.drawMain_gives h₀ hbody (hfree (by simpa using hmain)) (.refl _)).bind fun item e₁ h₁ => .pure h₁
  | succ count ih =>
    rw [drawItems_succ] at hV ⊢
    refine .follow hV (s.drawEarlyMain h₀ hbody hfree) fun early e₁ ⟨hearly, hfree₁⟩ hV => ?_
    have hbody₁ : CanHoldBody p opens e₁.stmtDepth := hearly.2.1 ▸ hbody
    have hitem := s.drawItem hearly.1 hbody₁ fun e he => hV e he.left
    refine .follow hV hitem fun item e₂ ⟨hitem, hfree₂⟩ hV => ?_
    have hbody₂ : CanHoldBody p opens e₂.stmtDepth := hitem.2.1 ▸ hbody₁
    have hitems := ih hitem.1 hbody₂ (fun h => hfree₂ (hfree₁ h)) fun e he => hV e he.left
    refine hitems.bind fun items e₃ hitems => .pure ?_
    exact hearly.append (hitem.append hitems)

theorem generate (hbody : CanHoldBody p opens e₀.stmtDepth) (hfree : free e₀.scope)
    (hV : ∀ e, Visits (Module.generate p) e₀ e → V e) :
    Gives safe J (Module.generate p) e₀ (Made holds I e₀) := by
  have hJ (e : Engine σ) (he : e₀.Agrees e) : J e := s.within (s.agrees h₀ he)
  refine .follow hV ((Keeps.countIn _).within hJ (.refl _)) fun count e₁ ⟨_, h₁⟩ hV => ?_
  have hI := s.agrees h₀ h₁
  have hitems := s.drawItems hI (h₁.stmtDepth ▸ hbody) (fun _ => h₁.scope ▸ hfree) count fun e he => hV e he.left
  refine hitems.bind fun items e₂ h₂ => .get ?_
  refine (Keeps.report.within (fun _ he => s.within (s.agrees h₂.1 he)) (.refl _)).bind fun _ e₃ ⟨_, h₃⟩ => .pure ?_
  refine ⟨s.agrees h₂.1 h₃, h₃.stmtDepth.trans (h₂.2.1.trans h₁.stmtDepth), ?_⟩
  rw [← h₁.scope, ← h₁.records, h₃.scope, h₃.records]
  exact h₂.2.2

end ModuleSetting

end TensorFuzz
