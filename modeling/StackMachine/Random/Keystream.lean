import StackMachine.Decimal.Binary
import StackMachine.Random

/-! A source that draws from a ChaCha20 keystream. Interpreters with a seed leave their draws to a
library of generators, of which is assumed: the key is spread from the seed by a congruential
generator, the stream is that of ChaCha20 with a block counter of 64 bits and no nonce, a number
below a bound takes one word or two as in `intBelow`, and a float takes two words as in
`unitFloat`. -/
namespace StackMachine

/-- A position in the word stream of a key of eight words. -/
structure Keystream where
  key : List UInt32
  position : Nat
deriving DecidableEq

namespace Keystream

/-- Rotates a word to the left by `n` bits, for `0 < n < 32`. -/
def rotateLeft (w : UInt32) (n : UInt32) : UInt32 := w <<< n ||| w >>> (32 - n)

/-- The words `a`, `b`, `c`, `d` of a state after a quarter round on them. -/
def quarterRound (a b c d : Nat) (state : Array UInt32) : Array UInt32 :=
  let half (p q : UInt32) (state : Array UInt32) : Array UInt32 :=
    let word (i : Nat) (state : Array UInt32) : UInt32 := state.getD i 0
    let state := state.setIfInBounds a (word a state + word b state)
    let state := state.setIfInBounds d (rotateLeft (word d state ^^^ word a state) p)
    let state := state.setIfInBounds c (word c state + word d state)
    state.setIfInBounds b (rotateLeft (word b state ^^^ word c state) q)
  half 8 7 (half 16 12 state)

/-- Four quarter rounds on the columns and four on the diagonals. -/
def doubleRound (state : Array UInt32) : Array UInt32 :=
  [(0, 4, 8, 12), (1, 5, 9, 13), (2, 6, 10, 14), (3, 7, 11, 15),
    (0, 5, 10, 15), (1, 6, 11, 12), (2, 7, 8, 13), (3, 4, 9, 14)].foldl
    (fun state (a, b, c, d) => quarterRound a b c d state) state

/-- The words that start every block. -/
def constants : List UInt32 := [0x61707865, 0x3320646e, 0x79622d32, 0x6b206574]

/-- The block of a counter: twenty rounds on the initial state, added to that state. -/
def block (key : List UInt32) (counter : Nat) : Array UInt32 :=
  let initial := (constants ++ key ++
    [UInt32.ofNat counter, UInt32.ofNat (counter / UInt32.size), 0, 0]).toArray
  let mixed := (List.range 10).foldl (fun state _ => doubleRound state) initial
  Array.zipWith (· + ·) initial mixed

/-- The word at the position, and the stream after it. -/
def next (s : Keystream) : UInt32 × Keystream :=
  ((block s.key (s.position / 16)).getD (s.position % 16) 0, { s with position := s.position + 1 })

/-- Draws one word and scales it to the bound. Where the low half of the product leaves the result
open, a second word decides about a carry. -/
def intBelow (bound : Nat) (s : Keystream) : Nat × Keystream :=
  let (w, s) := s.next
  let high := w.toNat * bound / UInt32.size
  let low := w.toNat * bound % UInt32.size
  if UInt32.size < low + bound then
    let (w, s) := s.next
    (high + (low + w.toNat * bound / UInt32.size) / UInt32.size, s)
  else (high, s)

/-- Draws two words and keeps their upper 53 bits as a fraction. -/
def unitFloat (s : Keystream) : Float × Keystream :=
  let (low, s) := s.next
  let (high, s) := s.next
  let upper := (high.toNat * UInt32.size + low.toNat) / Nat.pow 2 11
  (Decimal.Binary.toFloat ⟨upper, -53⟩ false, s)

instance : RandomSource Keystream := ⟨intBelow, unitFloat⟩

/-- The next state of the generator that spreads a seed over a key. -/
def seedStep (state : UInt64) : UInt64 := state * 6364136223846793005 + 11634580027462260723

/-- The key word of a generator state. -/
def seedWord (state : UInt64) : UInt32 :=
  let x := (((state >>> 18) ^^^ state) >>> 27).toUInt32
  let turn := (state >>> 59).toUInt32
  x >>> turn ||| x <<< ((32 - turn) % 32)

/-- The first `n` key words after a generator state. -/
def seedWords (state : UInt64) : Nat → List UInt32
  | 0 => []
  | n + 1 => seedWord (seedStep state) :: seedWords (seedStep state) n

/-- The stream of a seed, from its start. -/
def ofSeed (seed : UInt64) : Keystream := ⟨seedWords seed 8, 0⟩

end Keystream
end StackMachine
