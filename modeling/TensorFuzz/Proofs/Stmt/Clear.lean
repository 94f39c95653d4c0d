import TensorFuzz.Proofs.Expr.Clear
import TensorFuzz.Proofs.Stmt.Plain

/-!
# Texts of statements

The words of headings stand in no plain statement, however deep statements are nested in it.
-/

namespace TensorFuzz

theorem Target.Plain.clear {target : Target} (h : target.Plain) : Clear target.text := by
  cases h with
  | «variable» hname => exact hname.clear
  | field hname hlabel => exact hname.clear.join (by decide) hlabel.clear
  | entry hname hindex => exact (hname.clear.join (by decide) hindex.clear).before (by decide)
  | cell hname hrow hcol =>
    exact ((hname.clear.join (by decide) hrow.clear).join (by decide) hcol.clear).before (by decide)

theorem Assignment.Plain.clear {a : Assignment} (h : a.Plain) : Clear a.text :=
  h.target.clear.join (by decide) h.value.clear

theorem CaseLabel.clear (label : CaseLabel) : Clear label.text := by
  cases label with
  | case value => exact value.clear.behind (by decide)
  | default => exact (by decide)

namespace Stmt

/-- A declaration up to its name, behind the word that it begins with. -/
theorem clear_declaration {lead name : String} {spelled : SpelledTy} (hlead : IsLead lead)
    (hspelled : spelled.Plain) (hname : PlainName name) : Clear (lead ++ spelled.text ++ " " ++ name) :=
  (hspelled.clear.behind hlead).join (by decide) hname.clear

theorem clear_body {body : List Stmt} (h : ∀ stmt ∈ body, Clear stmt.text) : ∀ text ∈ texts body, Clear text := by
  induction body with
  | nil => exact List.forall_mem_nil _
  | cons stmt body ih =>
    obtain ⟨hstmt, hbody⟩ := List.forall_mem_cons.mp h
    exact List.forall_mem_cons.mpr ⟨hstmt, ih hbody⟩

theorem clear_cases {cases : List Case} (h : ∀ label body, .mk label body ∈ cases → Clear body.text) :
    ∀ text ∈ caseTexts cases, Clear text := by
  induction cases with
  | nil => exact List.forall_mem_nil _
  | cons case cases ih =>
    obtain ⟨label, body⟩ := case
    have hbody := h label body List.mem_cons_self
    have hcases := ih fun label body hmem => h label body (List.mem_cons_of_mem _ hmem)
    exact List.forall_mem_cons.mpr ⟨label.clear.join (by decide) hbody, hcases⟩

/-- No word of headings stands in the text of a statement with plain names. -/
theorem Plain.clear {stmt : Stmt} (h : stmt.Plain) : Clear stmt.text := by
  induction h with
  | declareValue hty hname hinit =>
    exact ((clear_declaration (by decide) hty hname).join (by decide) hinit.clear).before (by decide)
  | declareVariable hty hname => exact (clear_declaration (by decide) hty hname).before (by decide)
  | assign ha => exact ha.clear.before (by decide)
  | call hname hargs => exact (Expr.clear_call hname fun x hx => (hargs x hx).clear).before (by decide)
  | conditional hcondition _ ih => exact (hcondition.clear.behind (by decide)).join (by decide) ih
  | alternative hcondition _ _ ih ih' =>
    exact ((hcondition.clear.behind (by decide)).join (by decide) ih).join (by decide) ih'
  | block _ ih => exact ((Clear.spaced (clear_body ih)).behind (by decide)).before (by decide)
  | switch hscrutinee _ ih =>
    exact ((hscrutinee.clear.behind (by decide)).join (by decide) (Clear.spaced (clear_cases ih))).before (by decide)
  | loop hinit hcondition hstep _ ih =>
    have hheading := (hinit.clear.behind (by decide : IsLead "for(")).join (by decide : IsMark "; ") hcondition.clear
    exact (hheading.join (by decide) hstep.clear).join (by decide) ih
  | foreach isVariable hty hname hcollection _ ih =>
    have hlead : IsLead ("foreach(" ++ declarationWord isVariable ++ " ") := by cases isVariable <;> decide
    exact ((clear_declaration hlead hty hname).join (by decide) hcollection.clear).join (by decide) ih

end Stmt

end TensorFuzz
