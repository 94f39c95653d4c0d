import TensorFuzz.Proofs.Module.Items
import TensorFuzz.Proofs.Module.Soundness
import TensorFuzz.Proofs.Stmt.Flat

/-!
# The brackets of a module

The text of a module is flat, as all its items are plain. So its brackets nest properly, the braces that are words do so
by themselves, and it stands on one line.
-/

namespace TensorFuzz

open Text (words isBlank Nested Settles)

/-! ## Texts of items -/

theorem Parameter.Plain.flat {param : Parameter} (h : param.Plain) : Flat param.text.toList :=
  h.ty.flat.join (by decide) h.name.flat

theorem FieldDecl.Plain.flat {field : FieldDecl} (h : field.Plain) : Flat field.text.toList := by
  have hlead : ∀ c ∈ (declarationWord field.isMutable ++ " ").toList, isQuiet c = true := by
    cases field.isMutable <;> decide
  exact (Stmt.flat_declaration hlead h.ty h.name).before (by decide)

theorem flat_function {heading params body : String} (hheading : Flat heading.toList) (hparams : Flat params.toList)
    (hbody : Flat body.toList) : Flat (heading ++ "(" ++ params ++ ") \x7b " ++ body ++ " \x7d ").toList := by
  have htext : (heading ++ "(" ++ params ++ ") \x7b " ++ body ++ " \x7d ").toList =
      heading.toList ++ ('(' :: (params.toList ++ [')']) ++ (" \x7b " ++ body ++ " \x7d ").toList) := by simp
  rw [htext]
  exact hheading.append (hparams.round.append (Stmt.flat_block hbody))

theorem Function.Plain.flat {f : Function} (h : f.Plain) : Flat f.text.toList := by
  have hty : Flat f.ty.text.toList := h.ty.elim (fun hvoid => hvoid ▸ .of_forall (by decide)) SpelledTy.Plain.flat
  have hparams : ∀ text ∈ f.params.map (·.text), Flat text.toList :=
    List.forall_mem_map.mpr fun param hparam => (h.params param hparam).flat
  have hresult : ∀ text ∈ (f.result.map returnText).toList, Flat text.toList := fun text htext => by
    obtain ⟨x, hx, rfl⟩ := Option.map_eq_some_iff.mp (Option.mem_toList.mp htext)
    exact ((h.result x hx).flat.behind (by decide)).before (by decide)
  have hbody := Stmt.flat_body fun stmt hstmt => (h.body stmt hstmt).flat
  exact flat_function ((hty.behind (by decide)).join (by decide) h.name.flat) (.intercalate (by decide) hparams)
    (.spaced (List.forall_mem_append.mpr ⟨hbody, hresult⟩))

theorem flat_record {heading fields : String} (hheading : Flat heading.toList) (hfields : Flat fields.toList) :
    Flat (heading ++ " \x7b " ++ fields ++ " \x7d ").toList := by
  have htext : (heading ++ " \x7b " ++ fields ++ " \x7d ").toList =
      heading.toList ++ (" \x7b " ++ fields ++ " \x7d ").toList := by simp
  rw [htext]
  exact hheading.append (Stmt.flat_block hfields)

theorem Item.Plain.flat {item : Item} (h : item.Plain) : Flat item.text.toList := by
  cases h with
  | function hf => exact hf.flat
  | @record id fields hid hfields =>
    have hdecls : ∀ text ∈ fields.map (·.text), Flat text.toList :=
      List.forall_mem_map.mpr fun field hfield => (hfields field hfield).flat
    exact flat_record (hid.flat.behind (by decide)) (.spaced hdecls)

namespace Module

variable {σ : Type} [RandomSource σ] {p : Profile} {supply : Supply σ} {items : List Item} {e : Engine σ}

theorem run_flat (hrun : run p supply = .ok (items, e)) : Flat (moduleText items).toList :=
  .spaced (List.forall_mem_map.mpr fun item hitem => (run_plain hrun item hitem).flat)

/-- All brackets of a module nest properly, and all close; so do the braces that are words of their own, counted alone.
The only blank characters in the text are spaces. -/
theorem brackets_nest (hrun : run p supply = .ok (items, e)) :
    Nested (moduleText items).toList ∧ Settles ['\x7b'] ['\x7d'] (words (moduleText items).toList) ∧
      ∀ c ∈ (moduleText items).toList, isBlank c = true → c = ' ' :=
  ⟨(run_flat hrun).neutral.nested, (run_flat hrun).bracesSettle.settles_words, (run_flat hrun).eq_space⟩

/-- The brackets of the sample, which has all three kinds of them. -/
theorem brackets_nest_sample : ∃ items e, sample = .ok (items, e) ∧ Nested (moduleText items).toList := by
  obtain ⟨⟨items, e⟩, hrun, -⟩ := exists_of_toOption_map sample_text
  exact ⟨items, e, hrun, (brackets_nest hrun).1⟩

end Module

end TensorFuzz
