import TensorFuzz.Proofs.Expr.Flat
import TensorFuzz.Proofs.Stmt.Plain

/-!
# Flat texts of statements

The text of a plain statement is flat, however deep statements are nested in it: the braces around a block stand alone.
-/

namespace TensorFuzz

theorem Target.Plain.flat {target : Target} (h : target.Plain) : Flat target.text.toList := by
  cases h with
  | «variable» hname => exact hname.flat
  | field hname hlabel => exact hname.flat.join (by decide) hlabel.flat
  | @entry name index hname hindex =>
    have htext : (Target.entry name index).text.toList = name.toList ++ '[' :: (index.text.toList ++ [']']) := by
      simp [text]
    rw [htext]
    exact hname.flat.append (.square hindex.flat)
  | @cell name row col hname hrow hcol =>
    have htext : (Target.cell name row col).text.toList =
        name.toList ++ ('[' :: (row.text.toList ++ [']']) ++ '[' :: (col.text.toList ++ [']'])) := by simp [text]
    rw [htext]
    exact hname.flat.append ((Flat.square hrow.flat).append (.square hcol.flat))

theorem Assignment.Plain.flat {a : Assignment} (h : a.Plain) : Flat a.text.toList :=
  h.target.flat.join (by decide) h.value.flat

theorem CaseLabel.flat (label : CaseLabel) : Flat label.text.toList := by
  cases label with
  | case value => exact value.flat.behind (by decide)
  | default => exact .of_forall (by decide)

namespace Stmt

/-- A declaration up to its name, behind the word that it begins with. -/
theorem flat_declaration {lead name : String} {spelled : SpelledTy} (hlead : ∀ c ∈ lead.toList, isQuiet c = true)
    (hspelled : spelled.Plain) (hname : PlainName name) : Flat (lead ++ spelled.text ++ " " ++ name).toList :=
  (hspelled.flat.behind hlead).join (by decide) hname.flat

theorem flat_body {body : List Stmt} (h : ∀ stmt ∈ body, Flat stmt.text.toList) : ∀ text ∈ texts body, Flat text.toList := by
  induction body with
  | nil => exact List.forall_mem_nil _
  | cons stmt body ih =>
    obtain ⟨hstmt, hbody⟩ := List.forall_mem_cons.mp h
    exact List.forall_mem_cons.mpr ⟨hstmt, ih hbody⟩

theorem flat_cases {cases : List Case} (h : ∀ label body, .mk label body ∈ cases → Flat body.text.toList) :
    ∀ text ∈ caseTexts cases, Flat text.toList := by
  induction cases with
  | nil => exact List.forall_mem_nil _
  | cons case cases ih =>
    obtain ⟨label, body⟩ := case
    have hbody := h label body List.mem_cons_self
    have hcases := ih fun label body hmem => h label body (List.mem_cons_of_mem _ hmem)
    exact List.forall_mem_cons.mpr ⟨label.flat.join (by decide) hbody, hcases⟩

/-! ## Forms of statements -/

section
variable {condition yes no body scrutinee cases init step entry collection : String}

/-- A word and a text in parentheses, in front of another text. -/
theorem flat_headed {word inner rest : List Char} (hword : ∀ c ∈ word, isQuiet c = true) (hinner : Flat inner)
    (hrest : Flat rest) : Flat (word ++ '(' :: (inner ++ ')' :: rest)) := by
  have htext : word ++ '(' :: (inner ++ ')' :: rest) = word ++ ('(' :: (inner ++ [')']) ++ rest) := by simp
  rw [htext]
  exact (Flat.of_forall hword).append (hinner.round.append hrest)

theorem flat_conditional (hcondition : Flat condition.toList) (hyes : Flat yes.toList) :
    Flat ("if (" ++ condition ++ ") " ++ yes).toList := by
  have htext : ("if (" ++ condition ++ ") " ++ yes).toList =
      "if ".toList ++ '(' :: (condition.toList ++ ')' :: ' ' :: yes.toList) := by simp
  rw [htext]
  exact flat_headed (by decide) hcondition (hyes.cons (by decide))

theorem flat_block (h : Flat body.toList) : Flat (" \x7b " ++ body ++ " \x7d ").toList := by
  have htext : (" \x7b " ++ body ++ " \x7d ").toList =
      ' ' :: '\x7b' :: ' ' :: (body.toList ++ [' ', '\x7d', ' ']) := by simp
  rw [htext]
  exact .block h

theorem flat_switch (hscrutinee : Flat scrutinee.toList) (hcases : Flat cases.toList) :
    Flat ("switch (" ++ scrutinee ++ ") \x7b " ++ cases ++ " \x7d ").toList := by
  have htext : ("switch (" ++ scrutinee ++ ") \x7b " ++ cases ++ " \x7d ").toList = "switch ".toList ++
      '(' :: (scrutinee.toList ++ ')' :: (" \x7b " ++ cases ++ " \x7d ").toList) := by simp
  rw [htext]
  exact flat_headed (by decide) hscrutinee (flat_block hcases)

theorem flat_loop (hinit : Flat init.toList) (hcondition : Flat condition.toList) (hstep : Flat step.toList)
    (hbody : Flat body.toList) :
    Flat ("for(" ++ init ++ "; " ++ condition ++ "; " ++ step ++ ") " ++ body).toList := by
  have htext : ("for(" ++ init ++ "; " ++ condition ++ "; " ++ step ++ ") " ++ body).toList = "for".toList ++
      '(' :: ((init ++ "; " ++ condition ++ "; " ++ step).toList ++ ')' :: ' ' :: body.toList) := by simp
  rw [htext]
  exact flat_headed (by decide) ((hinit.join (by decide) hcondition).join (by decide) hstep) (hbody.cons (by decide))

theorem flat_foreach (hentry : Flat entry.toList) (hcollection : Flat collection.toList) (hbody : Flat body.toList) :
    Flat ("foreach(" ++ (entry ++ " : " ++ collection) ++ ") " ++ body).toList := by
  have htext : ("foreach(" ++ (entry ++ " : " ++ collection) ++ ") " ++ body).toList = "foreach".toList ++
      '(' :: ((entry ++ " : " ++ collection).toList ++ ')' :: ' ' :: body.toList) := by simp
  rw [htext]
  exact flat_headed (by decide) (hentry.join (by decide) hcollection) (hbody.cons (by decide))

end

/-! ## Plain statements -/

theorem Plain.flat {stmt : Stmt} (h : stmt.Plain) : Flat stmt.text.toList := by
  induction h with
  | declareValue hty hname hinit =>
    exact ((flat_declaration (by decide) hty hname).join (by decide) hinit.flat).before (by decide)
  | declareVariable hty hname => exact (flat_declaration (by decide) hty hname).before (by decide)
  | assign ha => exact ha.flat.before (by decide)
  | call hname hargs => exact (Expr.flat_call hname fun x hx => (hargs x hx).flat).before (by decide)
  | conditional hcondition _ ih => exact flat_conditional hcondition.flat ih
  | alternative hcondition _ _ ih ih' => exact (flat_conditional hcondition.flat ih).join (by decide) ih'
  | block _ ih => exact flat_block (.spaced (flat_body ih))
  | switch hscrutinee _ ih => exact flat_switch hscrutinee.flat (.spaced (flat_cases ih))
  | loop hinit hcondition hstep _ ih => exact flat_loop hinit.flat hcondition.flat hstep.flat ih
  | @foreach ty name collection body isVariable hty hname hcollection _ ih =>
    have hlead : ∀ c ∈ (declarationWord isVariable ++ " ").toList, isQuiet c = true := by cases isVariable <;> decide
    have hforeach := flat_foreach (flat_declaration hlead hty hname) hcollection.flat ih
    simp only [← String.append_assoc] at hforeach
    exact hforeach

end Stmt

end TensorFuzz
