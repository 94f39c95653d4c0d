import TensorFuzz.Random.KeyStream

/-!
# Scripted sources

A scripted source serves a given list of words first, one per draw of either width, and goes on with
the key stream of a seed. It counts the draws made of it.
-/

namespace TensorFuzz

/-- The words still to be served, the stream that follows them, and the draws made so far. -/
structure Scripted where
  script : List UInt64
  stream : KeyStream
  shortDraws : Nat
  longDraws : Nat

namespace Scripted

/-- Serves `script` and then the stream of `seed`. -/
def ofSeed (seed : UInt64) (script : List UInt64) : Scripted := ⟨script, .ofSeed seed, 0, 0⟩

/-- The low half of the next scripted word, or the next word of the stream. -/
def next32 (s : Scripted) : UInt32 × Scripted :=
  let s := { s with shortDraws := s.shortDraws + 1 }
  match s.script with
  | word :: script => (word.toUInt32, { s with script })
  | [] =>
    let (word, stream) := RandomSource.next32 s.stream
    (word, { s with stream })

/-- The next scripted word, or the next two words of the stream. -/
def next64 (s : Scripted) : UInt64 × Scripted :=
  let s := { s with longDraws := s.longDraws + 1 }
  match s.script with
  | word :: script => (word, { s with script })
  | [] =>
    let (word, stream) := RandomSource.next64 s.stream
    (word, { s with stream })

instance : RandomSource Scripted where
  next32 := next32
  next64 := next64

end Scripted

end TensorFuzz
