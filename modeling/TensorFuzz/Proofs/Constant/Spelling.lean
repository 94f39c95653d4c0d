import TensorFuzz.Constant.Eval
import TensorFuzz.Constant.Synthesis
import TensorFuzz.Proofs.Constant.Searching
import TensorFuzz.Proofs.Random.Draws

/-!
# What a constant expression denotes

`ConstExpr.Denotes`: the expression may stand at a level of precedence without parentheses, and its value is
exactly the given integer, as are the values of its parts. Nothing in such an expression leaves the range in
which the machine words of the evaluator are exact. `Constant.Spelled` is what each form may spell an integer
as; whatever that is, it denotes the integer.
-/

namespace TensorFuzz

open Constant (Precedence Form)

/-- The magnitude is at most that of the smallest signed 64-bit integer. -/
def Small (n : Int) : Prop := n.natAbs ≤ 0x8000000000000000

theorem Fits64.small {n : Int} (h : Fits64 n) : Small n := by
  unfold Fits64 at h
  unfold Small
  omega

theorem Small.fits128 {n : Int} (h : Small n) : Fits128 n := by
  unfold Small at h
  unfold Fits128
  omega

theorem Small.neg {n : Int} (h : Small n) : Small (-n) := by
  unfold Small at h ⊢
  omega

/-- A small power of a base other than zero and one has a small exponent. -/
theorem lt_limit32_of_small {x : Int} {n : Nat} (hx : 2 ≤ x) (h : Small (x.pow n)) : n < limit32 := by
  have hbase : 2 ≤ x.natAbs := by omega
  have hpow : 2 ^ n ≤ x.natAbs ^ n := Nat.pow_le_pow_left hbase n
  have hsmall : (x ^ n).natAbs ≤ 2 ^ 63 := h
  rw [Int.natAbs_pow] at hsmall
  have hlt : 2 ^ n < 2 ^ 64 := by omega
  have hlog : n < 64 := (Nat.pow_lt_pow_iff_right (by decide)).mp hlt
  unfold limit32
  omega

/-- The expression has the value, and its text is read back as the expression by a reader of the precedence. -/
inductive ConstExpr.Denotes : Precedence → ConstExpr → Int → Prop
  | literal {n : Nat} : Small n → Denotes .primary (.literal n) n
  | group {c : ConstExpr} {v : Int} : Denotes .sum c v → Denotes .primary (.group c) v
  | ofPrimary {c : ConstExpr} {v : Int} : Denotes .primary c v → Denotes .power c v
  | power {b e : ConstExpr} {x : Int} {n : Nat} : Denotes .primary b x → Denotes .power e n → 2 ≤ x →
      Small (x.pow n) → Denotes .power (.power b e) (x.pow n)
  | ofPower {c : ConstExpr} {v : Int} : Denotes .power c v → Denotes .sign c v
  | negation {c : ConstExpr} {v : Int} : Denotes .sign c v → Denotes .sign (.negation c) (-v)
  | ofSign {c : ConstExpr} {v : Int} : Denotes .sign c v → Denotes .product c v
  | product {a b : ConstExpr} {x y : Int} : Denotes .product a x → Denotes .sign b y → Small (x * y) →
      Denotes .product (.product a b) (x * y)
  | quotient {a b : ConstExpr} {x y : Int} : Denotes .product a (x * y) → Denotes .sign b y → y ≠ 0 →
      Denotes .product (.quotient a b) x
  | ofProduct {c : ConstExpr} {v : Int} : Denotes .product c v → Denotes .sum c v
  | sum {a b : ConstExpr} {x y : Int} : Denotes .sum a x → Denotes .product b y → Small (x + y) →
      Denotes .sum (.sum a b) (x + y)
  | difference {a b : ConstExpr} {x y : Int} : Denotes .sum a x → Denotes .product b y → Small (x - y) →
      Denotes .sum (.difference a b) (x - y)

namespace ConstExpr.Denotes

variable {prec : Precedence} {c : ConstExpr} {v : Int}

theorem small (h : c.Denotes prec v) : Small v := by
  induction h with
  | literal h | power _ _ _ h | product _ _ h | sum _ _ h | difference _ _ h => exact h
  | group _ ih | ofPrimary _ ih | ofPower _ ih | ofSign _ ih | ofProduct _ ih => exact ih
  | negation _ ih => exact ih.neg
  | @quotient a b x y _ _ hy ih _ =>
    unfold Small at ih ⊢
    rw [Int.natAbs_mul] at ih
    exact Nat.le_trans (Nat.le_mul_of_pos_right _ (Int.natAbs_pos.mpr hy)) ih

end ConstExpr.Denotes

/-! ## Searches -/

namespace Search

/-- Neither factor is larger than the product. -/
theorem natAbs_le_of_mem_divisors {value : Int} {d : Nat} (h : d ∈ divisors value) :
    d ≤ value.natAbs ∧ (value.tdiv d).natAbs ≤ value.natAbs := by
  obtain ⟨-, -, hroot, -⟩ := mem_divisors_iff.mp h
  refine ⟨Nat.le_trans (Nat.le_mul_self d) hroot, ?_⟩
  rw [Int.natAbs_tdiv]
  exact Nat.div_le_self _ _

theorem mul_of_mem_divisors {value : Int} {d : Nat} (h : d ∈ divisors value) :
    (d : Int) * value.tdiv d = value ∧ Fits64 d ∧ Fits64 (value.tdiv d) := by
  obtain ⟨⟨-, hvalue⟩, -, -, hdvd⟩ := mem_divisors_iff.mp h
  obtain ⟨hd, hquot⟩ := natAbs_le_of_mem_divisors h
  refine ⟨Int.mul_tdiv_cancel' hdvd, ?_⟩
  unfold limit at hvalue
  unfold Fits64
  omega

end Search

/-! ## Spellings -/

namespace Constant

open Draw (Yields)
open ConstExpr

/-- What a form may spell an integer as, with so many levels left: one constructor for each way that a form goes on. -/
inductive Spelled : Nat → Form → Int → ConstExpr → Prop
  | plain {form : Form} {v : Int} : Spelled 0 form v (plain v)
  | literal {levels : Nat} {v : Int} : Spelled (levels + 1) .atom v (.literal v.natAbs)
  | group {levels : Nat} {v : Int} {c : ConstExpr} : Fits64 v → Spelled levels .sum v c →
      Spelled (levels + 1) .atom v (.group c)
  | ofAtom {levels : Nat} {v : Int} {c : ConstExpr} : Spelled (levels + 1) .atom v c → Spelled (levels + 1) .power v c
  | power {levels base exponent : Nat} {v : Int} {b e : ConstExpr} :
      (base, exponent) ∈ Search.perfectPowers v.natAbs → Spelled levels .atom base b →
      Spelled levels .power exponent e → Spelled (levels + 1) .power v (.power b e)
  | signed {levels : Nat} {v : Int} {c : ConstExpr} : Spelled (levels + 1) .power v.natAbs c →
      Spelled (levels + 1) .sign v (if v < 0 then .negation c else c)
  | ofSign {levels : Nat} {v : Int} {c : ConstExpr} : Spelled (levels + 1) .sign v c → Spelled (levels + 1) .product v c
  | product {levels d : Nat} {v : Int} {a b : ConstExpr} : d ∈ Search.divisors v → Spelled levels .product d a →
      Spelled levels .sign (v.tdiv d) b → Spelled (levels + 1) .product v (.product a b)
  | quotient {levels : Nat} {v factor : Int} {a b : ConstExpr} : 1 ≤ factor → factor ≤ 5 → Fits64 (v * factor) →
      (v * factor).natAbs ≤ Search.limit → Spelled levels .product (v * factor) a → Spelled levels .sign factor b →
      Spelled (levels + 1) .product v (.quotient a b)
  | ofProduct {levels : Nat} {v : Int} {c : ConstExpr} : Spelled (levels + 1) .product v c →
      Spelled (levels + 1) .sum v c
  | sum {levels : Nat} {v offset : Int} {a b : ConstExpr} : 0 ≤ offset → offset ≤ 14 → Fits64 (v - offset) →
      Spelled levels .sum offset a → Spelled levels .product (v - offset) b → Spelled (levels + 1) .sum v (.sum a b)
  | difference {levels : Nat} {v offset : Int} {a b : ConstExpr} : 0 ≤ offset → offset ≤ 14 → Fits64 (v + offset) →
      Spelled levels .sum (v + offset) a → Spelled levels .product offset b →
      Spelled (levels + 1) .sum v (.difference a b)

/-! ## What spellings denote -/

/-- The precedence that a form is read back at. -/
def Form.precedence : Form → Precedence
  | .sum => .sum
  | .product => .product
  | .sign => .sign
  | .power => .power
  | .atom => .primary

/-- The integers that a form is asked for: powers and atoms spell magnitudes only. -/
def Form.Admits : Form → Int → Prop
  | .power, v | .atom, v => 0 ≤ v ∧ Small v
  | _, v => Fits64 v

theorem admits_natAbs {v : Int} (hv : Small v) : Form.power.Admits v.natAbs :=
  ⟨Int.natCast_nonneg _, hv⟩

/-- The base and the exponent of a power are no larger than the power. -/
theorem admits_of_mem_perfectPowers {v : Int} {base exponent : Nat} (hv : Form.power.Admits v)
    (h : (base, exponent) ∈ Search.perfectPowers v.natAbs) :
    Form.atom.Admits base ∧ Form.power.Admits exponent ∧ base ≤ v.natAbs ∧ exponent ≤ v.natAbs := by
  obtain ⟨-, hbase, hexponent, hpow⟩ := Search.mem_perfectPowers_iff.mp h
  replace hpow : base ^ exponent = v.natAbs := hpow
  have hsmall : v.natAbs ≤ 0x8000000000000000 := hv.2
  have hexp : exponent < base ^ exponent := Nat.lt_pow_self hbase
  have hle : base ≤ base ^ exponent := Nat.le_self_pow (by omega) base
  unfold Form.Admits Small
  omega

theorem literal_denotes {v : Int} (h : Form.atom.Admits v) : Denotes .primary (.literal v.natAbs) v := by
  obtain ⟨n, rfl⟩ := Int.eq_ofNat_of_zero_le h.1
  exact .literal h.2

/-- A magnitude with the sign in front of it. -/
theorem signed_denotes {c : ConstExpr} {v : Int} (h : c.Denotes .power v.natAbs) :
    Denotes .sign (if v < 0 then .negation c else c) v := by
  split
  · have heq : -(v.natAbs : Int) = v := by omega
    exact heq ▸ .negation (.ofPower h)
  · have heq : (v.natAbs : Int) = v := by omega
    exact .ofPower (heq ▸ h)

theorem plain_denotes {form : Form} {v : Int} (h : form.Admits v) : (plain v).Denotes form.precedence v := by
  have hsigned (hfits : Fits64 v) : (plain v).Denotes .sign v :=
    signed_denotes (.ofPrimary (.literal (n := v.natAbs) hfits.small))
  have hatom (hatom : Form.atom.Admits v) : (plain v).Denotes .primary v := by
    rw [plain, if_neg (Int.not_lt.mpr hatom.1)]
    exact literal_denotes hatom
  cases form with
  | sum => exact .ofProduct (.ofSign (hsigned h))
  | product => exact .ofSign (hsigned h)
  | sign => exact hsigned h
  | power => exact .ofPrimary (hatom h)
  | atom => exact hatom h

theorem fits_of_offset {offset : Int} (hlow : 0 ≤ offset) (hhigh : offset ≤ 14) : Fits64 offset := by
  unfold Fits64
  omega

/-- Whatever a form spells an integer as denotes it. -/
theorem Spelled.denotes {levels : Nat} {form : Form} {v : Int} {c : ConstExpr} (h : Spelled levels form v c)
    (hv : form.Admits v) : c.Denotes form.precedence v := by
  induction h with
  | plain => exact plain_denotes hv
  | literal => exact literal_denotes hv
  | group hfits _ ih => exact .group (ih hfits)
  | ofAtom _ ih => exact .ofPrimary (ih hv)
  | ofSign _ ih => exact .ofSign (ih hv)
  | ofProduct _ ih => exact .ofProduct (ih hv)
  | signed _ ih => exact signed_denotes (ih (admits_natAbs hv.small))
  | @power levels base exponent v b e hmem _ _ ihb ihe =>
    obtain ⟨hb, he, -⟩ := admits_of_mem_perfectPowers hv hmem
    obtain ⟨-, hbase, -, hpow⟩ := Search.mem_perfectPowers_iff.mp hmem
    have heq : (base : Int) ^ exponent = v := by
      rw [← Int.natCast_pow, show base ^ exponent = v.natAbs from hpow]
      exact Int.natAbs_of_nonneg hv.1
    subst heq
    exact .power (ihb hb) (ihe he) (by omega) hv.2
  | @product levels d v a b hmem _ _ iha ihb =>
    obtain ⟨hmul, hd, hquot⟩ := Search.mul_of_mem_divisors hmem
    have hproduct := Denotes.product (iha hd) (ihb hquot) (by rw [hmul]; exact hv.small)
    rwa [hmul] at hproduct
  | @quotient levels v factor a b hlow hhigh hscaled _ _ _ iha ihb =>
    exact .quotient (iha hscaled) (ihb (fits_of_offset (by omega) (by omega))) (by omega)
  | @sum levels v offset a b hlow hhigh hfits _ _ iha ihb =>
    have heq : offset + (v - offset) = v := by omega
    have hsum := Denotes.sum (iha (fits_of_offset hlow hhigh)) (ihb hfits) (heq.symm ▸ hv.small)
    rwa [heq] at hsum
  | @difference levels v offset a b hlow hhigh hfits _ _ iha ihb =>
    have heq : v + offset - offset = v := by omega
    have hdifference := Denotes.difference (iha hfits) (ihb (fits_of_offset hlow hhigh)) (heq.symm ▸ hv.small)
    rwa [heq] at hdifference

/-! ## Spellers -/

variable {σ : Type} [RandomSource σ]

section
variable {below : Speller σ} {levels : Nat} (hbelow : ∀ form v, Yields (below form v) (Spelled levels form v))
include hbelow

theorem spellAtom_yields (v : Int) : Yields (spellAtom below v) (Spelled (levels + 1) .atom v) := by
  refine (Draw.event_yields (by decide) (by decide)).bind fun grouped _ => .ite (fun h => ?_) fun _ => .pure .literal
  exact (hbelow .sum v).bind fun c hc => .pure (.group h.2 hc)

theorem spellPower_yields (v : Int) : Yields (spellPower below v) (Spelled (levels + 1) .power v) := by
  have hatom : Yields (spellAtom below v) (Spelled (levels + 1) .power v) :=
    (spellAtom_yields hbelow v).mono fun _ => .ofAtom
  unfold spellPower
  dsimp only
  refine .ite (fun _ => ?_) fun _ => hatom
  refine (Draw.event_yields (by decide) (by decide)).bind fun _ _ => .ite (fun _ => ?_) fun _ => hatom
  refine (Draw.pick?_yields _).bind fun found hfound => ?_
  match found with
  | none => exact hatom
  | some (base, exponent) =>
    refine (hbelow .atom base).bind fun b hb => (hbelow .power exponent).bind fun e he => .pure ?_
    exact .power (hfound.2 _ rfl) hb he

theorem spellSign_yields (v : Int) : Yields (spellSign below v) (Spelled (levels + 1) .sign v) :=
  (spellPower_yields hbelow v.natAbs).bind fun _ hc => .pure (.signed hc)

theorem spellProduct_yields (v : Int) : Yields (spellProduct below v) (Spelled (levels + 1) .product v) := by
  have hsign : Yields (spellSign below v) (Spelled (levels + 1) .product v) :=
    (spellSign_yields hbelow v).mono fun _ => .ofSign
  unfold spellProduct
  dsimp only
  refine (Draw.event_yields (by decide) (by decide)).bind fun _ _ => .ite (fun _ => ?_) fun _ => hsign
  refine (Draw.event_yields (by decide) (by decide)).bind fun _ _ => .ite (fun _ => ?_) fun _ => ?_
  · refine (Draw.pick?_yields _).bind fun found hfound => ?_
    match found with
    | none => exact hsign
    | some d =>
      refine (hbelow .product d).bind fun a ha => (hbelow .sign _).bind fun b hb => .pure ?_
      exact .product (hfound.2 _ rfl) ha hb
  · refine (Draw.intIn_yields (by decide) (by decide)).bind fun factor hfactor => ?_
    obtain ⟨hlow, hhigh⟩ := hfactor.2 (by decide)
    refine .ite (fun hscaled => ?_) fun _ => hsign
    refine (hbelow .product _).bind fun a ha => (hbelow .sign _).bind fun b hb => .pure ?_
    exact .quotient hlow hhigh hscaled.1 hscaled.2 ha hb

theorem spellSum_yields (v : Int) : Yields (spellSum below v) (Spelled (levels + 1) .sum v) := by
  have hproduct : Yields (spellProduct below v) (Spelled (levels + 1) .sum v) :=
    (spellProduct_yields hbelow v).mono fun _ => .ofProduct
  unfold spellSum
  dsimp only
  refine (Draw.event_yields (by decide) (by decide)).bind fun _ _ => .ite (fun _ => ?_) fun _ => hproduct
  refine (Draw.intIn_yields (by decide) (by decide)).bind fun offset hoffset => ?_
  obtain ⟨hlow, hhigh⟩ := hoffset.2 (by decide)
  refine (Draw.event_yields (by decide) (by decide)).bind fun _ _ => .ite (fun _ => ?_) fun _ => ?_
  · refine .ite (fun hfits => ?_) fun _ => hproduct
    refine (hbelow .sum _).bind fun a ha => (hbelow .product _).bind fun b hb => .pure ?_
    exact .sum hlow hhigh hfits ha hb
  · refine .ite (fun hfits => ?_) fun _ => hproduct
    refine (hbelow .sum _).bind fun a ha => (hbelow .product _).bind fun b hb => .pure ?_
    exact .difference hlow hhigh hfits ha hb

end

theorem spell_yields (levels : Nat) (form : Form) (v : Int) :
    Yields (spell levels form v : Draw σ ConstExpr) (Spelled levels form v) := by
  induction levels generalizing form v with
  | zero => exact .pure .plain
  | succ levels ih =>
    cases form with
    | sum => exact spellSum_yields ih v
    | product => exact spellProduct_yields ih v
    | sign => exact spellSign_yields ih v
    | power => exact spellPower_yields ih v
    | atom => exact spellAtom_yields ih v

theorem synthesize_yields (levels : Nat) {v : Int} (hv : Fits64 v) :
    Yields (synthesize levels v : Draw σ ConstExpr) (·.Denotes .sum v) :=
  (spell_yields levels .sum v).mono fun _ h => h.denotes hv

end Constant

end TensorFuzz
