/-!
# The random word stream

A stream of 32-bit words: ChaCha with six double rounds and a 64-bit block counter, keyed by eight
words that a 64-bit seed is stretched into. `Generator.next` draws one word; everything random in
the library is drawn through it, so a seed fixes all of it.
-/

namespace SatSearch

namespace Keystream

abbrev Block := Vector UInt32 16

def rotateLeft (x : UInt32) (n : UInt32) : UInt32 := (x <<< n) ||| (x >>> (32 - n))

def rotateRight (x : UInt32) (n : UInt32) : UInt32 :=
  (x >>> n) ||| (x <<< ((32 - n) % 32))

/-- Mixes the four words at the given places. -/
def quarterRound (s : Block) (a b c d : Fin 16) : Block :=
  let va := s[a]
  let vb := s[b]
  let vc := s[c]
  let vd := s[d]
  let va := va + vb
  let vd := rotateLeft (vd ^^^ va) 16
  let vc := vc + vd
  let vb := rotateLeft (vb ^^^ vc) 12
  let va := va + vb
  let vd := rotateLeft (vd ^^^ va) 8
  let vc := vc + vd
  let vb := rotateLeft (vb ^^^ vc) 7
  (((s.set a va).set b vb).set c vc).set d vd

/-- One round down the columns and one along the diagonals. -/
def doubleRound (s : Block) : Block :=
  let s := quarterRound s 0 4 8 12
  let s := quarterRound s 1 5 9 13
  let s := quarterRound s 2 6 10 14
  let s := quarterRound s 3 7 11 15
  let s := quarterRound s 0 5 10 15
  let s := quarterRound s 1 6 11 12
  let s := quarterRound s 2 7 8 13
  quarterRound s 3 4 9 14

def doubleRounds : Nat → Block → Block
  | 0, s => s
  | n + 1, s => doubleRounds n (doubleRound s)

/-- The block before mixing: four constants, the key, the counter and two zero words. -/
def initial (key : Vector UInt32 8) (counter : UInt64) : Block :=
  #v[0x61707865, 0x3320646e, 0x79622d32, 0x6b206574,
    key[0], key[1], key[2], key[3], key[4], key[5], key[6], key[7],
    counter.toUInt32, (counter >>> 32).toUInt32, 0, 0]

/-- Block number `counter` of the stream of a key. -/
def block (key : Vector UInt32 8) (counter : UInt64) : Block :=
  let start := initial key counter
  Vector.zipWith (· + ·) (doubleRounds 6 start) start

/-- One step of the congruential generator that stretches a seed. -/
def stretch (s : UInt64) : UInt64 := s * 6364136223846793005 + 11634580027462260723

/-- The word given out in the state `s`: its high bits, folded and rotated. -/
def fold (s : UInt64) : UInt32 :=
  rotateRight (((s >>> 18) ^^^ s) >>> 27).toUInt32 (s >>> 59).toUInt32

/-- The state after `n` further steps. -/
def stretched (seed : UInt64) : Nat → UInt64
  | 0 => seed
  | n + 1 => stretch (stretched seed n)

/-- The key that a seed is stretched into. -/
def keyOfSeed (seed : UInt64) : Vector UInt32 8 :=
  Vector.ofFn fun i => fold (stretched seed (i + 1))

end Keystream

/-- A generator: its key, the number of the next block, and the words of the current block that
were not drawn yet. -/
structure Generator where
  key : Vector UInt32 8
  counter : UInt64
  pending : List UInt32
  deriving DecidableEq, Repr

namespace Generator

def ofKey (key : Vector UInt32 8) : Generator := ⟨key, 0, []⟩

def ofSeed (seed : UInt64) : Generator := ofKey (Keystream.keyOfSeed seed)

instance : Inhabited Generator := ⟨ofSeed 0⟩

/-- The next word of the stream. -/
def next (g : Generator) : UInt32 × Generator :=
  match g with
  | ⟨key, counter, word :: rest⟩ => (word, ⟨key, counter, rest⟩)
  | ⟨key, counter, []⟩ =>
    let block := Keystream.block key counter
    (block[0], ⟨key, counter + 1, block.toList.tail⟩)

/-- Two words, the low one first. -/
def next64 (g : Generator) : UInt64 × Generator :=
  let (low, g) := g.next
  let (high, g) := g.next
  (high.toUInt64 <<< 32 ||| low.toUInt64, g)

/-- The top bit of a word. -/
def nextBool (g : Generator) : Bool × Generator :=
  let (word, g) := g.next
  (word >>> 31 == 1, g)

/-- A multiple of `2⁻⁵³` in `[0, 1)`, from the top 53 bits of two words; the division is exact. -/
def nextUnit (g : Generator) : Float × Generator :=
  let (word, g) := g.next64
  ((word >>> 11).toFloat / 9007199254740992, g)

/-- Appends `n` truth values, one drawn after another. -/
def bools : Nat → Array Bool → Generator → Array Bool × Generator
  | 0, drawn, g => (drawn, g)
  | n + 1, drawn, g =>
    let (b, g) := g.nextBool
    bools n (drawn.push b) g

end Generator

end SatSearch
