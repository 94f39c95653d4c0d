import TensorFuzz.Fault

/-!
# Random sources

A source hands out 32-bit and 64-bit words, one after another. A `Supply` is a source with the
patience to use it: the number of words that a single draw may reject before it counts as endless,
which may depend on where the source stands. A `Draw` consumes words of a supply and may end in a fault.
-/

namespace TensorFuzz

/-- A state from which words can be taken for ever. -/
class RandomSource (σ : Type) where
  next32 : σ → UInt32 × σ
  next64 : σ → UInt64 × σ

/-- A random source, and how many words one draw may take from each of its states. -/
structure Supply (σ : Type) where
  source : σ
  patience : σ → Nat

/-- A computation that takes words from a supply. -/
abbrev Draw (σ : Type) := StateT (Supply σ) (Except Fault)

namespace Draw

variable {σ : Type} [RandomSource σ]

def next32 : Draw σ UInt32 := fun supply =>
  let (word, source) := RandomSource.next32 supply.source
  .ok (word, { supply with source })

def next64 : Draw σ UInt64 := fun supply =>
  let (word, source) := RandomSource.next64 supply.source
  .ok (word, { supply with source })

end Draw

end TensorFuzz
