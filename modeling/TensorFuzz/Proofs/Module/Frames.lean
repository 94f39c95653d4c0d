import TensorFuzz.Proofs.Module.Soundness
import TensorFuzz.Proofs.Expr.Soundness
import TensorFuzz.Proofs.Stmt.Budget
import TensorFuzz.Proofs.Stmt.Frames

/-!
# What a module does to the frames

A function adds its entry to the innermost frame, and a record its shape to the registry; neither changes anything
else. So a module ends in the frame that it began in, with one entry for each of its functions in the order of the
text.
-/

namespace TensorFuzz

open Gen
open Name (Led firstWords)

variable {σ : Type}

/-- The names of the functions among the items, in the order of the text. -/
def functionNames (items : List Item) : List String :=
  items.filterMap fun
    | .function f => some f.name
    | .record .. => none

/-- What the items leave of a state: the frames around, the statement level and the shapes that are registered stay,
and the functions have entries in the innermost frame in the order of the text. -/
structure Entered (e : Engine σ) (items : List Item) (e' : Engine σ) : Prop where
  outer : e'.scope.outer = e.scope.outer
  stmtDepth : e'.stmtDepth = e.stmtDepth
  shapes : e.records.shapes <+: e'.records.shapes
  entries : ∃ entries : List Binding, e'.scope.current = entries.reverse ++ e.scope.current ∧
    (∀ b ∈ entries, b.isFunction = true) ∧ entries.map (·.name) = functionNames items

namespace Entered

variable {e e' e'' : Engine σ}

theorem nil (h : e.Agrees e') : Entered e [] e' where
  outer := by rw [h.scope]
  stmtDepth := h.stmtDepth
  shapes := h.records ▸ List.prefix_refl _
  entries := ⟨[], by rw [h.scope]; rfl, List.forall_mem_nil _, rfl⟩

theorem append {items items' : List Item} (h : Entered e items e') (h' : Entered e' items' e'') :
    Entered e (items ++ items') e'' where
  outer := h'.outer.trans h.outer
  stmtDepth := h'.stmtDepth.trans h.stmtDepth
  shapes := h.shapes.trans h'.shapes
  entries := by
    obtain ⟨entries, hcurrent, hfunctions, hnames⟩ := h.entries
    obtain ⟨entries', hcurrent', hfunctions', hnames'⟩ := h'.entries
    refine ⟨entries ++ entries', ?_, List.forall_mem_append.mpr ⟨hfunctions, hfunctions'⟩, ?_⟩
    · rw [hcurrent', hcurrent, List.reverse_append, List.append_assoc]
    · rw [List.map_append, hnames, hnames']
      exact List.filterMap_append.symm

theorem function {f : Function} {b : Binding} (hb : b.isFunction = true ∧ b.name = f.name)
    (hscope : e'.scope = e.scope.define b) (hrecords : e'.records = e.records) (hdepth : e'.stmtDepth = e.stmtDepth) :
    Entered e [.function f] e' where
  outer := by rw [hscope]; rfl
  stmtDepth := hdepth
  shapes := hrecords ▸ List.prefix_refl _
  entries := ⟨[b], by rw [hscope]; rfl, List.forall_mem_singleton.mpr hb.1, by rw [List.map_singleton, hb.2]; rfl⟩

theorem record {id : String} {decls : List FieldDecl} {shape : Shape} (hscope : e'.scope = e.scope)
    (hrecords : e'.records = ⟨e.records.shapes ++ [shape]⟩) (hdepth : e'.stmtDepth = e.stmtDepth) :
    Entered e [.record id decls] e' where
  outer := by rw [hscope]
  stmtDepth := hdepth
  shapes := hrecords ▸ List.prefix_append _ _
  entries := ⟨[], by rw [hscope]; rfl, List.forall_mem_nil _, rfl⟩

end Entered

variable [RandomSource σ] {p : Profile} {e₀ : Engine σ}

namespace Module

/-! ## Functions -/

theorem drawParameters_outer (tys : List Ty) :
    Threads .none (fun _ => True) e₀ (tys.mapM (drawParameter p)) fun _ scope => scope.outer = e₀.scope.outer := by
  induction tys generalizing e₀ with
  | nil =>
    rw [List.mapM_nil]
    exact Engine.framing.pure trivial rfl
  | cons ty tys ih =>
    rw [List.mapM_cons]
    have hparam : Threads .none (fun _ => True) e₀ (drawParameter p ty) fun _ scope =>
        scope.outer = e₀.scope.outer := by
      refine Engine.framing.quietly trivial (Keeps.freeName ty) fun name _ => ?_
      refine Engine.framing.quietly trivial (Keeps.spell p ty) fun spelled _ => ?_
      exact Engine.framing.declare trivial fun e₁ h₁ _ _ hscope => Engine.framing.pure trivial (by rw [hscope]; rfl)
    refine hparam.bind fun param e₁ h₁ _ _ houter => ih.bind fun params e₂ h₂ _ _ houter' => ?_
    exact Engine.framing.pure trivial (houter'.trans houter)

theorem drawResult_quiet (ty : Ty) : Keeps .none e₀ (drawResult p ty) fun _ => True :=
  .ite (fun _ => .pure trivial) fun _ => (Expr.generate_quiet ty).bind fun _ _ => .pure trivial

/-- The inside of a function leaves the scope. -/
theorem body_restores (spelled : SpelledTy) (name : String) (ty : Ty) (paramTys : List Ty) :
    Threads .none (fun _ => True) e₀ (drawInside p spelled name ty paramTys)
      fun item scope => scope = e₀.scope ∧ ∃ f, item = .function f ∧ f.name = name := by
  refine (Engine.framing.nested trivial trivial (R := fun item scope => scope.outer = e₀.opened.scope.outer ∧
    ∃ f, item = .function f ∧ f.name = name) ?_ fun _ _ h => h.1).mono fun item scope h => ⟨h.1, h.2.choose_spec.2⟩
  refine (drawParameters_outer paramTys).bind fun params e₁ h₁ _ _ houter => ?_
  refine (Stmt.several_outer p.functionBody).bind fun body e₂ h₂ _ _ houter' => ?_
  refine Engine.framing.quietly trivial (drawResult_quiet ty) fun result _ => Engine.framing.pure trivial ?_
  exact ⟨houter'.trans houter, _, rfl, rfl⟩

/-- An item that is a function, with its entry in the innermost frame. -/
def EntersFunction (scope : Scope) (item : Item) (scope' : Scope) : Prop :=
  ∃ f ty paramTys, item = .function f ∧ scope' = scope.defineFunction f.name ty paramTys

theorem drawMain_enters :
    Threads .none (fun _ => True) e₀ (drawMain p) (EntersFunction e₀.scope) := by
  refine Engine.framing.quietly trivial Keeps.report fun _ _ => ?_
  refine Engine.framing.declare trivial fun e₁ h₁ _ _ hscope => ?_
  refine (body_restores (.plain .void) entryName .void []).mono fun item scope h => ?_
  obtain ⟨hkept, f, hitem, hname⟩ := h
  exact ⟨f, .void, [], hitem, by rw [hkept, hscope, hname]; rfl⟩

theorem drawFunction_enters :
    Threads .none (fun _ => True) e₀ (drawFunction p) (EntersFunction e₀.scope) := by
  rw [drawFunction_eq]
  refine Engine.framing.quietly trivial (drawReturnTy_keeps p) fun ty _ => ?_
  refine Engine.framing.quietly trivial (Keeps.freeFunctionName ty) fun name _ => ?_
  refine Engine.framing.quietly trivial (Keeps.countIn _) fun count _ => ?_
  refine Engine.framing.quietly trivial ((Keeps.ty p true).times count) fun paramTys _ => ?_
  refine Engine.framing.quietly trivial Keeps.report fun _ _ => ?_
  refine Engine.framing.declare trivial fun e₁ h₁ _ _ hscope => ?_
  refine Engine.framing.quietly trivial (Keeps.spell p ty) fun spelled _ => ?_
  refine (body_restores spelled name ty paramTys).mono fun item scope h => ?_
  obtain ⟨hkept, f, hitem, hname⟩ := h
  exact ⟨f, ty, paramTys, hitem, by rw [hkept, hscope, hname]; rfl⟩

/-! ## Records -/

/-- A record leaves the scope and the statement level, and its shape is added behind those that are registered. -/
def EntersRecord (p : Profile) (e : Engine σ) (item : Item) (e' : Engine σ) : Prop :=
  e'.scope = e.scope ∧ e'.stmtDepth = e.stmtDepth ∧ ∃ (id : String) (parts : List (Field × FieldDecl)),
    item = .record id (parts.map (·.2)) ∧ Led (firstWords Name.records) id ∧ (∀ part ∈ parts, FieldDrawn p part) ∧
      e'.records = ⟨e.records.shapes ++ [⟨id, parts.map (·.1)⟩]⟩

theorem drawRecord_enters (e₀ : Engine σ) :
    Gives .none (fun _ => True) (drawRecord p) e₀ (EntersRecord p e₀) := by
  have hany (e e' : Engine σ) (_ : e.Agrees e') : True := trivial
  refine (freeRecordName_keeps.within (hany e₀) (.refl e₀)).bind fun id e₁ ⟨⟨hfree, hled⟩, h₁⟩ => ?_
  refine ((Keeps.countIn _).within (hany e₀) h₁).bind fun count e₂ ⟨_, h₂⟩ => ?_
  refine (Gives.update trivial rfl).bind fun _ e₃ heq => ?_
  subst heq
  have hfields : Gives .none (FieldFrame p e₂) (times (drawField p) count) e₂.naming _ :=
    drawFields_gives (.naming p e₂) count
  refine (hfields.mono (fun _ _ => trivial) fun _ _ h => h).bind fun parts e₄ ⟨hframe, _, hparts, _⟩ => ?_
  refine .get (.orFault hframe.exit ?_)
  refine (Gives.update trivial rfl).bind fun _ e₅ heq => ?_
  subst heq
  have hids : id ∉ e₄.records.ids := by rwa [hframe.records, h₂.records]
  have hdefine : Gives .none (fun _ => True) (defineRecord id (parts.map (·.1))) { e₄ with scope := e₂.scope } _ :=
    defineRecord_gives (e := { e₄ with scope := e₂.scope }) hids _ fun _ _ => trivial
  refine hdefine.bind fun _ e₆ h₆ => .pure ⟨h₆.scope.trans h₂.scope, ?_, id, parts, rfl, hled, hparts, ?_⟩
  · exact h₆.stmtDepth.trans (hframe.stmtDepth.trans h₂.stmtDepth)
  · rw [h₆.records]
    show Registry.mk (e₄.records.shapes ++ _) = _
    rw [hframe.records, h₂.records]

/-! ## Items -/

/-- The items are generated from any state, and leave what `Entered` says. -/
abbrev Enters (e : Engine σ) (g : Gen σ (List Item)) : Prop :=
  Gives .none (fun _ => True) g e fun items e' => Entered e items e'

theorem Enters.of_function {e : Engine σ} (he : e₀.Agrees e) {g : Gen σ Item}
    (h : Threads .none (fun _ => True) e₀ g (EntersFunction e₀.scope)) :
    Gives .none (fun _ => True) g e fun item e' => Entered e₀ [item] e' := by
  refine (h e he).post fun item e' ⟨_, hrecords, hdepth, f, ty, paramTys, hitem, hscope⟩ => ?_
  subst hitem
  exact .function ⟨rfl, rfl⟩ hscope hrecords hdepth

theorem drawEarlyMain_enters (hasMain : Bool) : Enters e₀ (drawEarlyMain p hasMain) := by
  refine .ite (fun _ => .pure (.nil (.refl _))) fun _ => ?_
  have hchance : Keeps .none e₀ (chance (.ratio 2 10) : Gen σ Bool) _ := .chance _
  refine (hchance.within (fun _ _ => trivial) (.refl _)).bind fun _ e₁ ⟨_, h₁⟩ => .ite (fun _ => ?_) fun _ => ?_
  · exact (Enters.of_function h₁ drawMain_enters).bind fun item e₂ h₂ => .pure h₂
  · exact .pure (.nil h₁)

theorem drawItem_enters :
    Gives .none (fun _ => True) (drawItem p) e₀ fun item e' => Entered e₀ [item] e' := by
  have hchance : Keeps .none e₀ (chance (.ratio 7 10) : Gen σ Bool) _ := .chance _
  refine (hchance.within (fun _ _ => trivial) (.refl _)).bind fun _ e₁ ⟨_, h₁⟩ => .ite (fun _ => ?_) fun _ => ?_
  · exact Enters.of_function h₁ drawFunction_enters
  · refine (drawRecord_enters e₁).post fun item e₂ ⟨hscope, hdepth, id, parts, hitem, _, _, hrecords⟩ => ?_
    subst hitem
    exact .record (hscope.trans h₁.scope) (h₁.records ▸ hrecords) (hdepth.trans h₁.stmtDepth)

theorem drawItems_enter (hasMain : Bool) (count : Nat) :
    Enters e₀ (drawItems p hasMain count) := by
  induction count generalizing e₀ hasMain with
  | zero =>
    refine .ite (fun _ => .pure (.nil (.refl _))) fun _ => ?_
    exact (Enters.of_function (.refl _) drawMain_enters).bind fun item e₁ h₁ => .pure h₁
  | succ count ih =>
    rw [drawItems_succ]
    refine (drawEarlyMain_enters hasMain).bind fun early e₁ hearly => ?_
    refine drawItem_enters.bind fun item e₂ hitem => ?_
    exact (ih _).bind fun items e₃ hitems => .pure (hearly.append (hitem.append hitems))

theorem generate_enters : Enters e₀ (generate p) := by
  have hcount : Keeps .none e₀ (countIn p.moduleItems : Gen σ Nat) _ := .countIn _
  refine (hcount.within (fun _ _ => trivial) (.refl _)).bind fun count e₁ ⟨_, h₁⟩ => ?_
  refine (drawItems_enter false count).bind fun items e₂ hitems => .get ?_
  refine (Keeps.report.within (fun _ _ => trivial) (.refl e₂)).bind fun _ e₃ ⟨_, h₃⟩ => .pure ?_
  have hentered : Entered e₀ ([] ++ (items ++ [])) e₃ := (Entered.nil h₁).append (hitems.append (.nil h₃))
  rwa [List.nil_append, List.append_nil] at hentered

/-- The frames after a module are those before it, with entries for the functions of the module. -/
theorem run_entered {supply : Supply σ} {items : List Item} {e : Engine σ} (hrun : run p supply = .ok (items, e)) :
    Entered (Engine.start p supply) items e :=
  generate_enters.of_run hrun

end Module

/-! ## The operations of the generator -/

/-- The ways to draw an expression: for a type at any level and depth, or a call. -/
inductive Expr.Source (p : Profile) : Gen σ Expr → Prop
  | producer {depth : Nat} {ty : Ty} {g : Gen σ Expr} : Expr.Producer p depth ty g → Source p g
  | call (depth : Nat) (function : String) (params : List Ty) : Source p (Expr.callAt p depth function params)

theorem Expr.Source.quiet {g : Gen σ Expr} (h : Expr.Source p g) {e e' : Engine σ} {x : Expr}
    (hrun : g.run e = .ok (x, e')) : e.Agrees e' := by
  cases h with
  | @producer depth ty _ hproducer =>
    cases hproducer with
    | operand => exact ((Expr.operand_drawn ty depth).of_run (.refl e) hrun).2
    | level level => exact ((Expr.atDepth_drawn depth level ty).of_run (.refl e) hrun).2
    | literal => exact ((Expr.literalAt_drawn depth ty).of_run (.refl e) hrun).2
  | call depth function params => exact ((Expr.callAt_drawn depth function params).of_run (.refl e) hrun).2

theorem Stmt.Producer.grows {g : Gen σ Stmt} (h : Stmt.Producer p g) : Stmt.Grows e₀ g := by
  cases h with
  | any => exact Stmt.generate_grows _
  | ofKind kind => exact Stmt.ofKind_grows Stmt.generate_grows kind
  | valueOf ty => exact Stmt.drawValueOf_grows ty

/-- What each operation changes, from every state. An expression leaves the scope, the registry and the statement level.
A statement leaves the registry, the statement level and all frames but the innermost, which gets one new name at most.
A function and the entry function add one function to the innermost frame, and a record adds one shape to the registry,
and that is all. So a module ends outside of all blocks, with the entries of its functions in the order of the text. -/
theorem frames_kept (p : Profile) {e e' : Engine σ} :
    (∀ g x, Expr.Source p g → g.run e = .ok (x, e') →
      e'.scope = e.scope ∧ e'.records = e.records ∧ e'.stmtDepth = e.stmtDepth) ∧
    (∀ g stmt, Stmt.Producer p g → g.run e = .ok (stmt, e') →
      e'.records = e.records ∧ e'.stmtDepth = e.stmtDepth ∧ e'.scope.outer = e.scope.outer ∧
        (e'.scope.current = e.scope.current ∨
          ∃ b, b.name ∉ e.scope.currentNames ∧ e'.scope.current = b :: e.scope.current)) ∧
    (∀ g item, g = Module.drawFunction p ∨ g = Module.drawMain p → g.run e = .ok (item, e') →
      e'.records = e.records ∧ e'.stmtDepth = e.stmtDepth ∧
        ∃ f ty paramTys, item = .function f ∧ e'.scope = e.scope.defineFunction f.name ty paramTys) ∧
    (∀ item, (Module.drawRecord p).run e = .ok (item, e') →
      e'.scope = e.scope ∧ e'.stmtDepth = e.stmtDepth ∧
        ∃ shape decls, item = .record shape.id decls ∧ e'.records = ⟨e.records.shapes ++ [shape]⟩) ∧
    (∀ supply items, Module.run p supply = .ok (items, e') →
      e'.scope.depth = 0 ∧ e'.stmtDepth = 0 ∧ (∀ b ∈ e'.scope.current, b.isFunction = true) ∧
        e'.scope.current.reverse.map (·.name) = functionNames items) := by
  refine ⟨fun g x hg hrun => ?_, fun g stmt hg hrun => ?_, fun g item hg hrun => ?_, fun item hrun => ?_,
    fun supply items hrun => ?_⟩
  · have hagrees := hg.quiet hrun
    exact ⟨hagrees.scope, hagrees.records, hagrees.stmtDepth⟩
  · obtain ⟨-, hrecords, hlevel, hgrows⟩ := (hg.grows e (.refl e)).of_run hrun
    refine ⟨hrecords, hlevel, hgrows.outer, ?_⟩
    rcases hgrows with hsame | ⟨b, hfree, hdefine⟩
    · exact .inl (by rw [hsame])
    · exact .inr ⟨b, hfree, by rw [hdefine]; rfl⟩
  · have henters : Threads .none (fun _ => True) e g (Module.EntersFunction e.scope) := by
      rcases hg with rfl | rfl
      · exact Module.drawFunction_enters
      · exact Module.drawMain_enters
    exact ((henters e (.refl e)).of_run hrun).2
  · obtain ⟨hscope, hlevel, id, parts, hitem, -, -, hrecords⟩ := (Module.drawRecord_enters e).of_run hrun
    exact ⟨hscope, hlevel, ⟨id, parts.map (·.1)⟩, parts.map (·.2), hitem, hrecords⟩
  · have hentered := Module.run_entered hrun
    obtain ⟨entries, hcurrent, hfunctions, hnames⟩ := hentered.entries
    have hcurrent : e'.scope.current = entries.reverse := hcurrent.trans (List.append_nil _)
    refine ⟨by rw [Scope.depth, hentered.outer]; rfl, hentered.stmtDepth, ?_, ?_⟩
    · rw [hcurrent]
      exact fun b hb => hfunctions b (List.mem_reverse.mp hb)
    · rw [hcurrent, List.reverse_reverse, hnames]

/-- A run of the default profile. -/
theorem frames_kept_default : ∃ items e',
    Module.run {} (⟨Repeating.mk 0, fun _ => 1⟩ : Supply Repeating) = .ok (items, e') ∧ e'.scope.depth = 0 ∧
      e'.stmtDepth = 0 ∧ e'.scope.current.reverse.map (·.name) = functionNames items := by
  obtain ⟨items, e', hrun⟩ := Module.exists_run (p := {}) (by decide) (by decide) Repeating.zero_steady
  obtain ⟨hframes, hlevel, -, hnames⟩ := (frames_kept {} (e := e')).2.2.2.2 _ items hrun
  exact ⟨items, e', hrun, hframes, hlevel, hnames⟩

end TensorFuzz
