import TensorFuzz.Random.Source

/-!
# The key stream of a seed

A 64-bit seed is stretched to a 256-bit key by eight steps of a congruential generator. The key and a
block counter are mixed by twelve rounds of additions, rotations and exclusive ors into blocks of
sixteen words, and the words of all blocks in order are the stream. A 64-bit word is two words of the
stream, the low half first; nothing is skipped between draws of different widths.
-/

namespace TensorFuzz

/-- The key of a seed, the number of the next block and the words left of the current one. -/
structure KeyStream where
  key : List UInt32
  block : UInt64
  rest : List UInt32
  deriving Repr

namespace KeyStream

/-- `word` turned to the right by `places` binary places. -/
def rotateRight (word places : UInt32) : UInt32 :=
  (word >>> places) ||| (word <<< (32 - places))

/-- `word` turned to the left by `places` binary places. -/
def rotateLeft (word places : UInt32) : UInt32 :=
  (word <<< places) ||| (word >>> (32 - places))

/-! ## The key -/

/-- One step of the congruential generator. -/
def stretchStep (state : UInt64) : UInt64 :=
  state * 6364136223846793005 + 11634580027462260723

/-- The key word read off a generator state: a shifted mixture, turned by the five leading bits. -/
def keyWord (state : UInt64) : UInt32 :=
  rotateRight (((state >>> 18) ^^^ state) >>> 27).toUInt32 (state >>> 59).toUInt32

/-- The first `count` key words that follow a generator state. -/
def keyWords : Nat → UInt64 → List UInt32
  | 0, _ => []
  | count + 1, state => keyWord (stretchStep state) :: keyWords count (stretchStep state)

/-! ## The blocks -/

/-- Adds, mixes and turns four words of a block state. -/
def quarterRound (a b c d : Nat) (state : Array UInt32) : Array UInt32 :=
  let at' (s : Array UInt32) (i : Nat) := s.getD i 0
  let half (s : Array UInt32) (i j k : Nat) (places : UInt32) :=
    let s := s.setIfInBounds i (at' s i + at' s j)
    s.setIfInBounds k (rotateLeft (at' s k ^^^ at' s i) places)
  let state := half state a b d 16
  let state := half state c d b 12
  let state := half state a b d 8
  half state c d b 7

/-- A round over the columns of the block state and a round over its diagonals. -/
def doubleRound (state : Array UInt32) : Array UInt32 :=
  let state := quarterRound 0 4 8 12 state
  let state := quarterRound 1 5 9 13 state
  let state := quarterRound 2 6 10 14 state
  let state := quarterRound 3 7 11 15 state
  let state := quarterRound 0 5 10 15 state
  let state := quarterRound 1 6 11 12 state
  let state := quarterRound 2 7 8 13 state
  quarterRound 3 4 9 14 state

def blockHead : List UInt32 := [0x61707865, 0x3320646e, 0x79622d32, 0x6b206574]

/-- The state that is mixed into block number `block`: the head, the key, the block number and a zero
nonce. -/
def blockInput (key : List UInt32) (block : UInt64) : List UInt32 :=
  blockHead ++ key ++ [block.toUInt32, (block >>> 32).toUInt32, 0, 0]

/-- The sixteen words of block number `block`: six double rounds, and the input added back. -/
def blockWords (key : List UInt32) (block : UInt64) : List UInt32 :=
  let input := blockInput key block
  List.zipWith (· + ·) (Nat.repeat doubleRound 6 input.toArray).toList input

/-! ## The stream -/

/-- The stream of a seed, from its beginning. -/
def ofSeed (seed : UInt64) : KeyStream := ⟨keyWords 8 seed, 0, []⟩

/-- The next word, opening a new block if the current one is used up. -/
def next (stream : KeyStream) : UInt32 × KeyStream :=
  match stream.rest with
  | word :: rest => (word, { stream with rest })
  | [] =>
    match blockWords stream.key stream.block with
    | word :: rest => (word, { stream with block := stream.block + 1, rest })
    | [] => (0, { stream with block := stream.block + 1 })

/-- Two words of the stream as one, the low half first. -/
def nextPair (stream : KeyStream) : UInt64 × KeyStream :=
  let (low, stream) := stream.next
  let (high, stream) := stream.next
  ((high.toUInt64 <<< 32) ||| low.toUInt64, stream)

instance : RandomSource KeyStream where
  next32 := next
  next64 := nextPair

end KeyStream

end TensorFuzz
