import TensorFuzz.Proofs.Module.Plain
import TensorFuzz.Proofs.Stmt.Clear

/-!
# The items of a module

A module has one entry function, among as many functions and records as the profile wants. Each begins with the words of
its heading, and these words stand nowhere else in it.
-/

namespace TensorFuzz

open Gen
open Gen.Plainly (quietly after)
open Name (Led firstWords functionWords)

variable {σ : Type} {p : Profile}

/-- The count lies in the range. -/
def Range.Holds (range : Range) (n : Nat) : Prop := range.min ≤ n ∧ n ≤ range.max

/-! ## Texts -/

/-- A function from its parameters on. -/
def Function.rest (f : Function) : String :=
  "(" ++ ", ".intercalate (f.params.map (·.text)) ++ ") \x7b " ++
    spaced (Stmt.texts f.body ++ (f.result.map returnText).toList) ++ " \x7d "

theorem Function.text_eq (f : Function) : f.text = "function " ++ (f.ty.text ++ (" " ++ (f.name ++ f.rest))) := by
  show "function " ++ f.ty.text ++ " " ++ f.name ++ "(" ++ _ ++ ") \x7b " ++ _ ++ " \x7d " = _
  simp only [Function.rest, String.append_assoc]

/-- A record from its name on. -/
def recordRest (id : String) (fields : List FieldDecl) : String :=
  id ++ " \x7b " ++ spaced (fields.map (·.text)) ++ " \x7d "

theorem recordText_eq (id : String) (fields : List FieldDecl) :
    (Item.record id fields).text = "record " ++ recordRest id fields := by
  simp only [Item.text, recordRest, String.append_assoc]

/-- A function whose text has no word of headings but those of its own heading. -/
structure Function.Headed (f : Function) : Prop where
  ty : f.ty.text = "void" ∨ Clear f.ty.text
  name : PlainName f.name
  rest : Clear f.rest

theorem Parameter.Plain.clear {param : Parameter} (h : param.Plain) : Clear param.text :=
  h.ty.clear.join (by decide) h.name.clear

theorem FieldDecl.Plain.clear {field : FieldDecl} (h : field.Plain) : Clear field.text := by
  have hlead : IsLead (declarationWord field.isMutable ++ " ") := by cases field.isMutable <;> decide
  exact (Stmt.clear_declaration hlead h.ty h.name).before (by decide)

theorem Function.Plain.headed {f : Function} (h : f.Plain) : f.Headed := by
  have hty : f.ty.text = "void" ∨ Clear f.ty.text := h.ty.imp (congrArg SpelledTy.text) SpelledTy.Plain.clear
  refine ⟨hty, h.name, ?_⟩
  have hparams : Clear ("(" ++ ", ".intercalate (f.params.map (·.text))) :=
    (Clear.intercalate (by decide) (List.forall_mem_map.mpr fun param hparam => (h.params param hparam).clear)).behind
      (by decide)
  have hresult : ∀ text ∈ (f.result.map returnText).toList, Clear text := fun text htext => by
    obtain ⟨x, hx, rfl⟩ := Option.map_eq_some_iff.mp (Option.mem_toList.mp htext)
    exact ((h.result x hx).clear.behind (by decide)).before (by decide)
  have hstmts := Stmt.clear_body fun stmt hstmt => (h.body stmt hstmt).clear
  exact (hparams.join (by decide) (Clear.spaced (List.forall_mem_append.mpr ⟨hstmts, hresult⟩))).before (by decide)

theorem clear_recordRest {id : String} {fields : List FieldDecl} (hid : PlainName id)
    (hfields : ∀ field ∈ fields, field.Plain) : Clear (recordRest id fields) := by
  have hdecls := List.forall_mem_map.mpr fun field hfield => (hfields field hfield).clear
  exact (hid.clear.join (by decide) (Clear.spaced hdecls)).before (by decide)

/-- A function other than the entry function, or a record, with as many parameters or fields as the profile wants. -/
inductive Item.Ordinary (p : Profile) : Item → Prop
  | function {f : Function} : f.Headed → f.name ≠ Module.entryName → p.functionParams.Holds f.params.length →
      Ordinary p (.function f)
  | record {id : String} {fields : List FieldDecl} : Clear (recordRest id fields) →
      p.recordFields.Holds fields.length → Ordinary p (.record id fields)

/-- The entry function: it has no parameters and returns nothing. -/
inductive Item.Entry : Item → Prop
  | intro {f : Function} : f.Headed → f.ty = .plain .void → f.name = Module.entryName → f.params = [] →
      Entry (.function f)

/-- So many functions and records, with the entry function among them unless there is one before them. -/
inductive Item.AllDrawn (p : Profile) : Bool → Nat → List Item → Prop
  | nil : AllDrawn p true 0 []
  | cons {hasMain : Bool} {count : Nat} {item : Item} {items : List Item} : item.Ordinary p →
      AllDrawn p hasMain count items → AllDrawn p hasMain (count + 1) (item :: items)
  | entry {count : Nat} {main : Item} {items : List Item} : main.Entry → AllDrawn p true count items →
      AllDrawn p false count (main :: items)

variable [RandomSource σ]

namespace Module

/-! ## Functions -/

theorem drawMain_entry : Plainly (drawMain p : Gen σ Item) fun item => item.Plain ∧ item.Entry := by
  have hname : PlainName entryName := .of_led (Name.Led.self entryName) (by decide) (by decide)
  have hvoid : Ty.void.Plain := trivial
  refine after (fun _ => Keeps.report) fun _ => Plainly.declare ⟨hname, hvoid, List.forall_mem_nil _⟩ ?_
  have hinside : Plainly (drawInside p (.plain .void) entryName .void [] : Gen σ Item) _ :=
    drawInside_plain hvoid (.inl rfl) hname (List.forall_mem_nil _)
  refine hinside.mono fun item h => ?_
  obtain ⟨f, rfl, hplain, hty, hentry, hlength⟩ := h
  exact ⟨.function hplain, .intro hplain.headed hty hentry (List.length_eq_zero_iff.mp hlength)⟩

theorem drawFunction_ordinary : Plainly (drawFunction p : Gen σ Item) fun item =>
    item.Plain ∧ (p.functionParams.min ≤ p.functionParams.max → item.Ordinary p) := by
  rw [drawFunction_eq]
  have hreturn : Plainly (drawReturnTy p : Gen σ Ty) fun ty => ty = .void ∨ ty.Plain ∧ ty ≠ .void :=
    quietly fun e he => (drawReturnTy_keeps p).mono fun ty hty => hty.imp_right fun hty => hty.plain he.shapes
  refine hreturn.bind fun ty hty => ?_
  have hplain : ty.Plain := by
    rcases hty with rfl | ⟨hplain, -⟩
    · trivial
    · exact hplain
  have hfree : Plainly (freeFunctionName ty : Gen σ String) (Led functionWords) :=
    quietly fun _ _ => (Keeps.freeFunctionName ty).mono fun _ h => h.2
  refine hfree.bind fun name hled => ?_
  refine (quietly fun _ _ => Keeps.countIn _).bind fun count hcount => ?_
  refine ((Plainly.ty true).times count).bind fun paramTys ⟨hlength, hparams⟩ => ?_
  refine after (fun _ => Keeps.report) fun _ => ?_
  have hname : PlainName name := .of_function hled
  refine Plainly.declare ⟨hname, hplain, fun ty hmem => (hparams ty hmem).1⟩ ?_
  refine (quietly fun _ _ => Keeps.spell p ty).bind fun spelled hspelled => ?_
  refine (drawInside_plain hplain (SpelledTy.void_or_plain_of_spells hspelled hty) hname hparams).mono fun item h => ?_
  obtain ⟨f, rfl, hf, -, rfl, hcount'⟩ := h
  refine ⟨.function hf, fun hp => .function hf.headed ?_ (by unfold Range.Holds; omega)⟩
  exact hled.ne (Name.Led.self entryName) (by decide) (by decide)

/-! ## Records -/

theorem drawRecord_ordinary : Plainly (drawRecord p : Gen σ Item) fun item =>
    item.Plain ∧ (p.recordFields.min ≤ p.recordFields.max → item.Ordinary p) := by
  have hfree : Plainly (freeRecordName : Gen σ String) PlainName :=
    quietly fun _ _ => freeRecordName_keeps.mono fun _ h => .of_record h.2
  refine hfree.bind fun id hid => ?_
  refine (quietly fun _ _ => Keeps.countIn _).bind fun count hcount => ?_
  refine Plainly.rescope (fun _ => Scope.Plain.descend) ((drawField_plain.times count).bind fun parts ⟨hlength, hparts⟩ => ?_)
  refine Upholds.look fun e he => .fallible fun scope hexit => Plainly.rescope (fun _ _ => he.scope.exit hexit) ?_
  have hfields : ∀ field ∈ parts.map (·.1), PlainName field.name ∧ field.ty.Plain :=
    List.forall_mem_map.mpr fun part hpart => (hparts part hpart).1
  have hdecls : ∀ decl ∈ parts.map (·.2), decl.Plain := List.forall_mem_map.mpr fun part hpart => (hparts part hpart).2
  refine (defineRecord_plain ⟨hid, hfields⟩).bind fun _ _ => .pure ⟨.record hid hdecls, fun hp => ?_⟩
  refine .record (clear_recordRest hid hdecls) ?_
  rw [List.length_map]
  unfold Range.Holds
  omega

/-! ## Items -/

theorem drawItem_ordinary : Plainly (drawItem p : Gen σ Item) fun item =>
    item.Plain ∧ (p.invalid? = none → item.Ordinary p) :=
  after (fun _ => Keeps.chance _) fun _ => .ite
    (fun _ => drawFunction_ordinary.mono fun _ h =>
      ⟨h.1, fun hp => h.2 (p.range_of_valid hp (by simp [Profile.ranges]))⟩)
    fun _ => drawRecord_ordinary.mono fun _ h =>
      ⟨h.1, fun hp => h.2 (p.range_of_valid hp (by simp [Profile.ranges]))⟩

theorem drawEarlyMain_entry (hasMain : Bool) : Plainly (drawEarlyMain p hasMain : Gen σ (List Item)) fun early =>
    early = [] ∨ hasMain = false ∧ ∃ main, early = [main] ∧ main.Plain ∧ main.Entry := by
  refine .ite (fun _ => .pure (.inl rfl)) fun hfirst => after (fun _ => Keeps.chance _) fun _ => ?_
  have hfirst : hasMain = false := by simpa using hfirst
  exact .ite (fun _ => drawMain_entry.bind fun main hmain => .pure (.inr ⟨hfirst, main, rfl, hmain⟩)) fun _ =>
    .pure (.inl rfl)

/-- All items are plain, and they are as many as asked for if the profile is valid. -/
theorem drawItems_drawn (hasMain : Bool) (count : Nat) :
    Plainly (drawItems p hasMain count : Gen σ (List Item)) fun items =>
      (∀ item ∈ items, item.Plain) ∧ (p.invalid? = none → Item.AllDrawn p hasMain count items) := by
  induction count generalizing hasMain with
  | zero =>
    cases hasMain with
    | true => exact .pure ⟨List.forall_mem_nil _, fun _ => .nil⟩
    | false =>
      refine drawMain_entry.bind fun main hmain => .pure ?_
      exact ⟨List.forall_mem_singleton.mpr hmain.1, fun _ => .entry hmain.2 .nil⟩
  | succ count ih =>
    rw [drawItems_succ]
    refine (drawEarlyMain_entry hasMain).bind fun early hearly => drawItem_ordinary.bind fun item hitem => ?_
    refine (ih _).bind fun items hitems => .pure ?_
    have hplain : ∀ other ∈ item :: items, other.Plain := List.forall_mem_cons.mpr ⟨hitem.1, hitems.1⟩
    rcases hearly with rfl | ⟨rfl, main, rfl, hmain⟩
    · rw [List.isEmpty_nil, Bool.not_true, Bool.or_false] at hitems
      exact ⟨hplain, fun hp => .cons (hitem.2 hp) (hitems.2 hp)⟩
    · exact ⟨List.forall_mem_cons.mpr ⟨hmain.1, hplain⟩, fun hp => .entry hmain.2 (.cons (hitem.2 hp) (hitems.2 hp))⟩

variable {supply : Supply σ} {items : List Item} {e : Engine σ}

theorem run_plain (hrun : run p supply = .ok (items, e)) : ∀ item ∈ items, item.Plain := by
  have hgenerate : Plainly (generate p : Gen σ (List Item)) fun items => ∀ item ∈ items, item.Plain :=
    (quietly fun _ _ => Keeps.countIn _).bind fun count _ => (drawItems_drawn false count).bind fun items hitems =>
      Upholds.look fun e _ => after (fun _ => Keeps.report) fun _ => .pure hitems.1
  exact (hgenerate (Engine.start_plain p supply) hrun).2

/-- The items of a module: as many as the profile wants, and the entry function. -/
theorem run_drawn (hp : p.invalid? = none) (hrun : run p supply = .ok (items, e)) :
    ∃ count, p.moduleItems.Holds count ∧ Item.AllDrawn p false count items := by
  have hrange : p.moduleItems.min ≤ p.moduleItems.max := p.range_of_valid hp (by simp [Profile.ranges])
  have hgenerate : Plainly (generate p : Gen σ (List Item)) fun items =>
      ∃ count, p.moduleItems.Holds count ∧ Item.AllDrawn p false count items := by
    refine (quietly fun _ _ => Keeps.countIn _).bind fun count hcount => ?_
    refine (drawItems_drawn false count).bind fun items hitems => Upholds.look fun e _ => ?_
    refine after (fun _ => Keeps.report) fun _ => .pure ⟨count, ?_, hitems.2 hp⟩
    unfold Range.Holds
    omega
  exact (hgenerate (Engine.start_plain p supply) hrun).2

end Module

end TensorFuzz
