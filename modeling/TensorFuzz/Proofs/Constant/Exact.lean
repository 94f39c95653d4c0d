import TensorFuzz.Proofs.Constant.Spelling

/-!
# Exact values of constant expressions

`ConstExpr.Stands` is the grammar of constant expressions: which trees are written at a level of precedence without
parentheses. `ConstExpr.integer?` is the value of a tree in the integers, without a bound, and `ConstExpr.InRange` says
that the words of the evaluators hold the values of all its parts.
-/

namespace TensorFuzz

open Constant (Precedence)

/-- The quotient, where it is an integer. -/
def Constant.quotient? (dividend divisor : Int) : Option Int :=
  if divisor ≠ 0 ∧ divisor ∣ dividend then some (dividend / divisor) else none

/-- The power, for the exponents of an unsigned 32-bit word. -/
def Constant.power? (base exponent : Int) : Option Int :=
  if 0 ≤ exponent ∧ exponent < limit32 then some (base.pow exponent.toNat) else none

namespace ConstExpr

/-- The expression is written at the precedence without parentheses: sums and products group to the left, powers to
the right, and a sign is looser than a power and tighter than a product. -/
inductive Stands : Precedence → ConstExpr → Prop
  | literal (n : Nat) : Stands .primary (.literal n)
  | group {c : ConstExpr} : Stands .sum c → Stands .primary (.group c)
  | ofPrimary {c : ConstExpr} : Stands .primary c → Stands .power c
  | power {b e : ConstExpr} : Stands .primary b → Stands .power e → Stands .power (.power b e)
  | ofPower {c : ConstExpr} : Stands .power c → Stands .sign c
  | negation {c : ConstExpr} : Stands .sign c → Stands .sign (.negation c)
  | ofSign {c : ConstExpr} : Stands .sign c → Stands .product c
  | product {a b : ConstExpr} : Stands .product a → Stands .sign b → Stands .product (.product a b)
  | quotient {a b : ConstExpr} : Stands .product a → Stands .sign b → Stands .product (.quotient a b)
  | ofProduct {c : ConstExpr} : Stands .product c → Stands .sum c
  | sum {a b : ConstExpr} : Stands .sum a → Stands .product b → Stands .sum (.sum a b)
  | difference {a b : ConstExpr} : Stands .sum a → Stands .product b → Stands .sum (.difference a b)

/-- The value in the integers, without a bound. -/
def integer? : ConstExpr → Option Int
  | literal value => some value
  | sum left right => do return (← left.integer?) + (← right.integer?)
  | difference left right => do return (← left.integer?) - (← right.integer?)
  | product left right => do return (← left.integer?) * (← right.integer?)
  | quotient left right => do Constant.quotient? (← left.integer?) (← right.integer?)
  | power base exponent => do Constant.power? (← base.integer?) (← exponent.integer?)
  | negation operand => do return -(← operand.integer?)
  | group inner => inner.integer?

/-- The expression and the expressions that it is made of. -/
def parts : ConstExpr → List ConstExpr
  | literal value => [literal value]
  | sum left right => sum left right :: (left.parts ++ right.parts)
  | difference left right => difference left right :: (left.parts ++ right.parts)
  | product left right => product left right :: (left.parts ++ right.parts)
  | quotient left right => quotient left right :: (left.parts ++ right.parts)
  | power base exponent => power base exponent :: (base.parts ++ exponent.parts)
  | negation operand => negation operand :: operand.parts
  | group inner => group inner :: inner.parts

/-- Signed 128-bit words hold the values of all parts. -/
def InRange (c : ConstExpr) : Prop := ∀ part ∈ c.parts, ∀ v ∈ part.integer?, Fits128 v

instance (c : ConstExpr) : Decidable c.InRange := inferInstanceAs (Decidable (∀ part ∈ c.parts, _))

/-- What is in range: the value of the expression itself, and what it is made of. -/
theorem inRange_iff {c : ConstExpr} : c.InRange ↔ (∀ v ∈ c.integer?, Fits128 v) ∧
    match c with
    | literal _ => True
    | sum a b | difference a b | product a b | quotient a b | power a b => a.InRange ∧ b.InRange
    | negation a | group a => a.InRange := by
  cases c with
  | literal n => exact List.forall_mem_cons.trans (and_congr_right fun _ => by simp)
  | negation a | group a => exact List.forall_mem_cons
  | sum | difference | product | quotient | power =>
    exact List.forall_mem_cons.trans (and_congr_right fun _ => List.forall_mem_append)

namespace Denotes

variable {prec : Precedence} {c : ConstExpr} {v : Int}

theorem stands (h : c.Denotes prec v) : c.Stands prec := by
  induction h with
  | literal => exact .literal _
  | group _ ih => exact .group ih
  | ofPrimary _ ih => exact .ofPrimary ih
  | power _ _ _ _ ihb ihe => exact .power ihb ihe
  | ofPower _ ih => exact .ofPower ih
  | negation _ ih => exact .negation ih
  | ofSign _ ih => exact .ofSign ih
  | product _ _ _ iha ihb => exact .product iha ihb
  | quotient _ _ _ iha ihb => exact .quotient iha ihb
  | ofProduct _ ih => exact .ofProduct ih
  | sum _ _ _ iha ihb => exact .sum iha ihb
  | difference _ _ _ iha ihb => exact .difference iha ihb

theorem integer?_eq (h : c.Denotes prec v) : c.integer? = some v := by
  induction h with
  | literal => rfl
  | group _ ih | ofPrimary _ ih | ofPower _ ih | ofSign _ ih | ofProduct _ ih => exact ih
  | @power b e x n _ _ hx hsmall ihb ihe =>
    have hlimit : (n : Int) < limit32 := Int.ofNat_lt.mpr (lt_limit32_of_small hx hsmall)
    rw [integer?, ihb, ihe, Option.bind_eq_bind, Option.bind_some, Option.bind_some]
    rw [Constant.power?, if_pos ⟨Int.natCast_nonneg n, hlimit⟩, Int.toNat_natCast]
  | negation _ ih => rw [integer?, ih]; rfl
  | product _ _ _ iha ihb | sum _ _ _ iha ihb | difference _ _ _ iha ihb => rw [integer?, iha, ihb]; rfl
  | @quotient a b x y _ _ hy iha ihb =>
    rw [integer?, iha, ihb, Option.bind_eq_bind, Option.bind_some, Option.bind_some]
    rw [Constant.quotient?, if_pos ⟨hy, Int.dvd_mul_left x y⟩, Int.mul_ediv_cancel _ hy]

theorem exists_of_mem_parts (h : c.Denotes prec v) : ∀ part ∈ c.parts, ∃ prec v, part.Denotes prec v := by
  induction h with
  | literal hn => exact List.forall_mem_singleton.mpr ⟨_, _, .literal hn⟩
  | ofPrimary _ ih | ofPower _ ih | ofSign _ ih | ofProduct _ ih => exact ih
  | group hc ih => exact List.forall_mem_cons.mpr ⟨⟨_, _, .group hc⟩, ih⟩
  | negation hc ih => exact List.forall_mem_cons.mpr ⟨⟨_, _, .negation hc⟩, ih⟩
  | power hb he hx hsmall ihb ihe =>
    exact List.forall_mem_cons.mpr ⟨⟨_, _, .power hb he hx hsmall⟩, List.forall_mem_append.mpr ⟨ihb, ihe⟩⟩
  | product ha hb hsmall iha ihb =>
    exact List.forall_mem_cons.mpr ⟨⟨_, _, .product ha hb hsmall⟩, List.forall_mem_append.mpr ⟨iha, ihb⟩⟩
  | quotient ha hb hy iha ihb =>
    exact List.forall_mem_cons.mpr ⟨⟨_, _, .quotient ha hb hy⟩, List.forall_mem_append.mpr ⟨iha, ihb⟩⟩
  | sum ha hb hsmall iha ihb =>
    exact List.forall_mem_cons.mpr ⟨⟨_, _, .sum ha hb hsmall⟩, List.forall_mem_append.mpr ⟨iha, ihb⟩⟩
  | difference ha hb hsmall iha ihb =>
    exact List.forall_mem_cons.mpr ⟨⟨_, _, .difference ha hb hsmall⟩, List.forall_mem_append.mpr ⟨iha, ihb⟩⟩

/-- What is small stays in range. -/
theorem inRange (h : c.Denotes prec v) : c.InRange := by
  intro part hpart w hw
  obtain ⟨prec', v', hpart⟩ := h.exists_of_mem_parts part hpart
  cases hpart.integer?_eq.symm.trans hw
  exact hpart.small.fits128

end Denotes

end ConstExpr

end TensorFuzz
