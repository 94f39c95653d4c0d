import TensorFuzz.Proofs.Constant.Unambiguous

/-!
# Constants do not blow up

What a spelling asks for grows by an offset of a sum or difference at most for each level, or it is the scaled dividend
of a quotient, which stays below the limit of the searches. So do the values of all parts of the text
(`ConstExpr.Modest`), and every integer that one form hands to another is held by a machine word: spelling with a check
of each of them (`Constant.spellInWords`) is spelling.
-/

namespace TensorFuzz

open Constant (Precedence Form Spelled evaluate)

/-! ## Values of parts -/

/-- The value is within the bound; a division is exact, by one to five, and a power has a base and an exponent from two
on. -/
def ConstExpr.Modest (bound : Nat) (c : ConstExpr) : Prop :=
  (∃ v, evaluate c.text = .ok v ∧ v.natAbs ≤ bound) ∧
    match c with
    | .quotient a b => ∃ x y, evaluate a.text = .ok x ∧ evaluate b.text = .ok y ∧ 1 ≤ y ∧ y ≤ 5 ∧ y ∣ x
    | .power b e => ∃ x n, evaluate b.text = .ok x ∧ evaluate e.text = .ok n ∧ 2 ≤ x ∧ 2 ≤ n
    | _ => True

/-- What denotes a value at any precedence evaluates to it. -/
theorem ConstExpr.Denotes.evaluate {prec : Precedence} {c : ConstExpr} {v : Int} (h : c.Denotes prec v) :
    evaluate c.text = .ok v := by
  refine Constant.evaluate_text ?_
  cases prec with
  | sum => exact h
  | product => exact .ofProduct h
  | sign => exact .ofProduct (.ofSign h)
  | power => exact .ofProduct (.ofSign (.ofPower h))
  | primary => exact .ofProduct (.ofSign (.ofPower (.ofPrimary h)))

namespace Constant

open ConstExpr
open Draw (Yields)

theorem plain_modest {v : Int} {bound : Nat} (hv : Small v) (hbound : v.natAbs ≤ bound) :
    ∀ part ∈ (plain v).parts, part.Modest bound := by
  have hliteral : Denotes .primary (.literal v.natAbs) v.natAbs := .literal hv
  have hmagnitude : Modest bound (.literal v.natAbs) := ⟨⟨_, hliteral.evaluate, hbound⟩, trivial⟩
  unfold plain
  split
  · have hnegation : Denotes .sign (.negation (.literal v.natAbs)) (-v.natAbs) :=
      .negation (.ofPower (.ofPrimary hliteral))
    exact List.forall_mem_cons.mpr
      ⟨⟨⟨_, hnegation.evaluate, by omega⟩, trivial⟩, List.forall_mem_singleton.mpr hmagnitude⟩
  · exact List.forall_mem_singleton.mpr hmagnitude

theorem Form.Admits.small {form : Form} {v : Int} (h : form.Admits v) : Small v := by
  cases form with
  | sum | product | sign => exact Fits64.small h
  | power | atom => exact h.2

/-- The values of the parts of a spelling are within any bound that leaves room for an offset for each level. -/
theorem Spelled.modest {levels : Nat} {form : Form} {v : Int} {c : ConstExpr} (h : Spelled levels form v c)
    (hv : form.Admits v) {bound : Nat} (hbound : max v.natAbs Search.limit + 14 * levels ≤ bound) :
    ∀ part ∈ c.parts, part.Modest bound := by
  have hlimit : 5 ≤ Search.limit := by decide
  induction h with
  | plain => exact plain_modest hv.small (by omega)
  | literal => exact List.forall_mem_singleton.mpr ⟨⟨_, (literal_denotes hv).evaluate, by omega⟩, trivial⟩
  | group hfits hc ih =>
    have hwhole := (Spelled.group hfits hc).denotes hv
    exact List.forall_mem_cons.mpr ⟨⟨⟨_, hwhole.evaluate, by omega⟩, trivial⟩, ih hfits (by omega)⟩
  | ofAtom _ ih | ofSign _ ih | ofProduct _ ih => exact ih hv hbound
  | @signed levels v c hc ih =>
    have hinner := ih (admits_natAbs hv.small) (by omega)
    have hwhole := (Spelled.signed hc).denotes hv
    split
    · rw [if_pos ‹_›] at hwhole
      exact List.forall_mem_cons.mpr ⟨⟨⟨_, hwhole.evaluate, by omega⟩, trivial⟩, hinner⟩
    · exact hinner
  | power hmem hb he ihb ihe =>
    obtain ⟨hbase, hexponent, hbase_le, hexponent_le⟩ := admits_of_mem_perfectPowers hv hmem
    obtain ⟨-, hbase_ge, hexponent_ge, -⟩ := Search.mem_perfectPowers_iff.mp hmem
    have hwhole := (Spelled.power hmem hb he).denotes hv
    refine List.forall_mem_cons.mpr ⟨⟨⟨_, hwhole.evaluate, by omega⟩, ?_⟩, ?_⟩
    · exact ⟨_, _, (hb.denotes hbase).evaluate, (he.denotes hexponent).evaluate, by omega, by omega⟩
    · exact List.forall_mem_append.mpr ⟨ihb hbase (by omega), ihe hexponent (by omega)⟩
  | @product levels d v a b hmem ha hb iha ihb =>
    obtain ⟨-, hd, hquot⟩ := Search.mul_of_mem_divisors hmem
    obtain ⟨hd_le, hquot_le⟩ := Search.natAbs_le_of_mem_divisors hmem
    have hwhole := (Spelled.product hmem ha hb).denotes hv
    refine List.forall_mem_cons.mpr ⟨⟨⟨_, hwhole.evaluate, by omega⟩, trivial⟩, ?_⟩
    exact List.forall_mem_append.mpr ⟨iha hd (by omega), ihb hquot (by omega)⟩
  | @quotient levels v factor a b hlow hhigh hscaled hscaled_le ha hb iha ihb =>
    have hfactor : Fits64 factor := fits_of_offset (by omega) (by omega)
    have hwhole := (Spelled.quotient hlow hhigh hscaled hscaled_le ha hb).denotes hv
    refine List.forall_mem_cons.mpr ⟨⟨⟨_, hwhole.evaluate, by omega⟩, ?_⟩, ?_⟩
    · exact ⟨_, _, (ha.denotes hscaled).evaluate, (hb.denotes hfactor).evaluate, hlow, hhigh, Int.dvd_mul_left v factor⟩
    · exact List.forall_mem_append.mpr ⟨iha hscaled (by omega), ihb hfactor (by omega)⟩
  | sum hlow hhigh hfits ha hb iha ihb =>
    have hoffset := fits_of_offset hlow hhigh
    have hwhole := (Spelled.sum hlow hhigh hfits ha hb).denotes hv
    refine List.forall_mem_cons.mpr ⟨⟨⟨_, hwhole.evaluate, by omega⟩, trivial⟩, ?_⟩
    exact List.forall_mem_append.mpr ⟨iha hoffset (by omega), ihb hfits (by omega)⟩
  | difference hlow hhigh hfits ha hb iha ihb =>
    have hoffset := fits_of_offset hlow hhigh
    have hwhole := (Spelled.difference hlow hhigh hfits ha hb).denotes hv
    refine List.forall_mem_cons.mpr ⟨⟨⟨_, hwhole.evaluate, by omega⟩, trivial⟩, ?_⟩
    exact List.forall_mem_append.mpr ⟨iha hfits (by omega), ihb hoffset (by omega)⟩

/-! ## Machine words -/

variable {σ : Type} [RandomSource σ]

/-- The integers that the word of a form holds: a signed one, or an unsigned one where only magnitudes are spelled. -/
def Form.Holds : Form → Int → Prop
  | .power, v | .atom, v => 0 ≤ v ∧ v < limit64
  | _, v => Fits64 v

instance : (form : Form) → (v : Int) → Decidable (form.Holds v)
  | .sum, v | .product, v | .sign, v => inferInstanceAs (Decidable (Fits64 v))
  | .power, v | .atom, v => inferInstanceAs (Decidable (0 ≤ v ∧ v < limit64))

theorem Form.Admits.holds {form : Form} {v : Int} (h : form.Admits v) : form.Holds v := by
  cases form with
  | sum | product | sign => exact h
  | power | atom =>
    obtain ⟨hlow, hsmall⟩ := h
    unfold Small at hsmall
    unfold Form.Holds limit64
    omega

/-- Spelling with a level left, one function for each form. -/
def spellForm (below : Speller σ) : Speller σ
  | .sum => spellSum below
  | .product => spellProduct below
  | .sign => spellSign below
  | .power => spellPower below
  | .atom => spellAtom below

theorem spell_succ (levels : Nat) (form : Form) (v : Int) :
    (spell (levels + 1) form v : Draw σ ConstExpr) = spellForm (spell levels) form v := by
  cases form <;> rfl

/-- The speller stops with the fault at an integer that the word of the form does not hold. -/
def inWord (fault : Fault) (speller : Speller σ) : Speller σ := fun form v =>
  if form.Holds v then speller form v else throw fault

/-- Spelling in machine words: whatever one form hands to another has to be held by its word. -/
def spellInWords (fault : Fault) : Nat → Speller σ
  | 0 => inWord fault (spell 0)
  | levels + 1 => inWord fault (spellForm (spellInWords fault levels))

section
variable {below below' : Speller σ} (heq : ∀ form v, form.Admits v → below form v = below' form v)
include heq

theorem spellAtom_congr (v : Int) : spellAtom below v = spellAtom below' v := by
  refine bind_congr fun grouped => ?_
  split
  · next h => rw [heq .sum v h.2]
  · rfl

theorem spellPower_congr {v : Int} (hv : Form.power.Admits v) : spellPower below v = spellPower below' v := by
  unfold spellPower
  rw [spellAtom_congr heq]
  split
  · refine bind_congr fun powered => ?_
    split
    · refine (Draw.pick?_yields _).bind_congr fun found hfound => ?_
      match found with
      | none => rfl
      | some (base, exponent) =>
        obtain ⟨hbase, hexponent, -⟩ := admits_of_mem_perfectPowers hv (hfound.2 _ rfl)
        dsimp only
        rw [heq .atom base hbase, heq .power exponent hexponent]
    · rfl
  · rfl

theorem spellSign_congr {v : Int} (hv : Fits64 v) : spellSign below v = spellSign below' v := by
  rw [spellSign, spellPower_congr heq (admits_natAbs hv.small)]
  rfl

theorem spellProduct_congr {v : Int} (hv : Fits64 v) : spellProduct below v = spellProduct below' v := by
  unfold spellProduct
  rw [spellSign_congr heq hv]
  refine bind_congr fun chosen => ?_
  split
  · refine bind_congr fun even => ?_
    split
    · refine (Draw.pick?_yields _).bind_congr fun found hfound => ?_
      match found with
      | none => rfl
      | some d =>
        obtain ⟨-, hd, hquot⟩ := Search.mul_of_mem_divisors (hfound.2 _ rfl)
        dsimp only
        rw [heq .product d hd, heq .sign _ hquot]
    · refine (Draw.intIn_yields (by decide) (by decide)).bind_congr fun factor hfactor => ?_
      dsimp only
      split
      · next hscaled => rw [heq .product _ hscaled.1, heq .sign factor hfactor.1]
      · rfl
  · rfl

theorem spellSum_congr {v : Int} (hv : Fits64 v) : spellSum below v = spellSum below' v := by
  unfold spellSum
  rw [spellProduct_congr heq hv]
  refine bind_congr fun chosen => ?_
  split
  · refine (Draw.intIn_yields (by decide) (by decide)).bind_congr fun offset hoffset => ?_
    refine bind_congr fun even => ?_
    split
    · split
      · next hfits => rw [heq .sum offset hoffset.1, heq .product _ hfits]
      · rfl
    · split
      · next hfits => rw [heq .sum _ hfits, heq .product offset hoffset.1]
      · rfl
  · rfl

/-- A form hands on only what the forms below are asked for. -/
theorem spellForm_congr {form : Form} {v : Int} (hv : form.Admits v) :
    spellForm below form v = spellForm below' form v := by
  cases form with
  | sum => exact spellSum_congr heq hv
  | product => exact spellProduct_congr heq hv
  | sign => exact spellSign_congr heq hv
  | power => exact spellPower_congr heq hv
  | atom => exact spellAtom_congr heq v

end

/-- Words hold every integer that is handed on, so no check of one fails. -/
theorem spellInWords_eq (fault : Fault) (levels : Nat) {form : Form} {v : Int} (hv : form.Admits v) :
    (spellInWords fault levels form v : Draw σ ConstExpr) = spell levels form v := by
  induction levels generalizing form v with
  | zero => exact if_pos hv.holds
  | succ levels ih =>
    rw [spellInWords, inWord, if_pos hv.holds, spell_succ]
    exact spellForm_congr (fun form v => ih) hv

/-! ## Spellings -/

/-- The text of a spelling is read as the tree that was drawn, and the value of every part of it is at most fourteen for
each level above the larger of the magnitude spelled and the limit of the searches; divisions are exact, by one to five,
and powers have a base and an exponent from two on. No integer on the way leaves its machine word. -/
theorem synthesize_modest (levels : Nat) {v : Int} (hv : Fits64 v) (supply : Supply σ) :
    (∀ c supply', synthesize levels v supply = .ok (c, supply') → (∀ tree : ConstExpr, tree.Spells c.text ↔ tree = c) ∧
      ∀ part ∈ c.parts, part.Modest (max v.natAbs 1000000000 + 14 * levels)) ∧
    (supply.Steady → ∃ c supply', synthesize levels v supply = .ok (c, supply')) ∧
    ∀ fault, spellInWords fault levels .sum v supply = synthesize levels v supply := by
  have hadmits : Form.sum.Admits v := hv
  obtain ⟨hresults, hends⟩ := (spell_yields levels .sum v).results supply
  refine ⟨fun c supply' hrun => ?_, fun hsteady => ?_, fun fault =>
    congrFun (spellInWords_eq fault levels hadmits) supply⟩
  · have hspelled := hresults c supply' hrun
    exact ⟨(hspelled.denotes hadmits).stands.spells_text_iff, hspelled.modest hadmits (Nat.le_refl _)⟩
  · obtain ⟨c, supply', hrun, -⟩ := hends hsteady
    exact ⟨c, supply', hrun⟩

/-- The least signed word, whose magnitude no signed word holds. -/
theorem synthesize_modest_least :
    ∃ c supply', synthesize 32 (-0x8000000000000000) ⟨Repeating.mk 0, fun _ => 1⟩ = .ok (c, supply') ∧
      (∀ tree : ConstExpr, tree.Spells c.text ↔ tree = c) ∧ ∀ part ∈ c.parts, part.Modest 0x80000000000001c0 := by
  obtain ⟨hmodest, hends, -⟩ := synthesize_modest 32 (v := -0x8000000000000000) (by decide) ⟨Repeating.mk 0, fun _ => 1⟩
  obtain ⟨c, supply', hrun⟩ := hends Repeating.zero_steady
  exact ⟨c, supply', hrun, hmodest c supply' hrun⟩

end Constant

end TensorFuzz
