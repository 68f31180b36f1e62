/-!
# Seeded random numbers

A stream of random words from the ChaCha cipher with eight rounds. A 64-bit seed is spread over the
256-bit key; the blocks of key, counter and zero nonce are then read word by word, two 32-bit words
to a draw, the low one first. The same seed gives the same stream for ever.

## Main definitions

* `block`: the sixteen words of one block.
* `RandomStream.ofSeed`, `RandomStream.draw`: the stream of a seed and its next word.
* `uniform`, `symmetric`: a word as a float in `[0, 1)` and in `[-1, 1]`.
-/

namespace ToneGraph.Synth

/-- Rotates a word to the left. -/
def rotateLeft (x : UInt32) (n : UInt32) : UInt32 :=
  (x <<< n) ||| (x >>> (32 - n))

/-- Four words that are treated alike. -/
structure Row where
  x : UInt32
  y : UInt32
  z : UInt32
  w : UInt32
  deriving DecidableEq, Repr

namespace Row

def add (a b : Row) : Row :=
  ⟨a.x + b.x, a.y + b.y, a.z + b.z, a.w + b.w⟩

/-- Exclusive-or with another row, then a rotation of every word. -/
def mix (a b : Row) (n : UInt32) : Row :=
  ⟨rotateLeft (a.x ^^^ b.x) n, rotateLeft (a.y ^^^ b.y) n, rotateLeft (a.z ^^^ b.z) n,
    rotateLeft (a.w ^^^ b.w) n⟩

/-- The row with its first word moved to the end. -/
def turn (a : Row) : Row :=
  ⟨a.y, a.z, a.w, a.x⟩

def toList (a : Row) : List UInt32 :=
  [a.x, a.y, a.z, a.w]

end Row

/-- The state of the cipher as four rows. -/
structure Grid where
  a : Row
  b : Row
  c : Row
  d : Row
  deriving DecidableEq, Repr

namespace Grid

/-- One round on the four columns of the grid. -/
def columns (g : Grid) : Grid :=
  let a := g.a.add g.b
  let d := g.d.mix a 16
  let c := g.c.add d
  let b := g.b.mix c 12
  let a := a.add b
  let d := d.mix a 8
  let c := c.add d
  let b := b.mix c 7
  ⟨a, b, c, d⟩

/-- One round on the columns and one on the diagonals. -/
def doubleRound (g : Grid) : Grid :=
  let g := g.columns
  let g := columns ⟨g.a, g.b.turn, g.c.turn.turn, g.d.turn.turn.turn⟩
  ⟨g.a, g.b.turn.turn.turn, g.c.turn.turn, g.d.turn⟩

def add (g h : Grid) : Grid :=
  ⟨g.a.add h.a, g.b.add h.b, g.c.add h.c, g.d.add h.d⟩

def toList (g : Grid) : List UInt32 :=
  g.a.toList ++ g.b.toList ++ g.c.toList ++ g.d.toList

end Grid

/-- The low half of a word. -/
def lowWord (n : UInt64) : UInt32 := n.toUInt32

/-- The high half of a word. -/
def highWord (n : UInt64) : UInt32 := (n >>> 32).toUInt32

/-- The grid before the rounds: four constants, the key, the counter and a zero nonce. -/
def startGrid (low high : Row) (counter : UInt64) : Grid :=
  ⟨⟨0x61707865, 0x3320646e, 0x79622d32, 0x6b206574⟩, low, high,
    ⟨lowWord counter, highWord counter, 0, 0⟩⟩

/-- One block: four double rounds, added to what they started from. -/
def block (low high : Row) (counter : UInt64) : List UInt32 :=
  let start := startGrid low high counter
  (start.doubleRound.doubleRound.doubleRound.doubleRound.add start).toList

/-- Joins words in pairs, the low one first. -/
def pairWords : List UInt32 → List UInt64
  | low :: high :: rest => (low.toUInt64 ||| (high.toUInt64 <<< 32)) :: pairWords rest
  | _ => []

/-- One step of the generator that spreads a seed. -/
def spread (state : UInt64) : UInt64 :=
  state * 6364136223846793005 + 11634580027462260723

/-- The word that the spreading generator gives in a state. -/
def spreadWord (state : UInt64) : UInt32 :=
  let mixed := (((state >>> 18) ^^^ state) >>> 27).toUInt32
  rotateLeft mixed ((32 : UInt32) - (state >>> 59).toUInt32)

/-- The next four words of a key, and the state behind them. -/
def keyRow (s : UInt64) : Row × UInt64 :=
  let s1 := spread s
  let s2 := spread s1
  let s3 := spread s2
  let s4 := spread s3
  (⟨spreadWord s1, spreadWord s2, spreadWord s3, spreadWord s4⟩, s4)

/-- A key, the next block to make, and the draws left of the current one. -/
structure RandomStream where
  low : Row
  high : Row
  counter : UInt64
  pending : List UInt64
  deriving DecidableEq, Repr

namespace RandomStream

/-- The stream of a seed, before its first draw. -/
def ofSeed (seed : UInt64) : RandomStream :=
  let (low, state) := keyRow seed
  let (high, _) := keyRow state
  ⟨low, high, 0, []⟩

/-- The next word of the stream. -/
def draw (s : RandomStream) : UInt64 × RandomStream :=
  match s.pending with
  | word :: rest => (word, { s with pending := rest })
  | [] =>
    let words := pairWords (block s.low s.high s.counter)
    (words.headD 0, { s with counter := s.counter + 1, pending := words.tail })

end RandomStream

/-- A word as a float in `[0, 1)`: its high 53 bits as a fraction. -/
def uniform (word : UInt64) : Float :=
  (word >>> 11).toFloat * Float.ofBits 0x3ca0000000000000

/-- A word as a float in `[-1, 1]`: its high 52 bits as the fraction of a float in `[1, 2)`, which
is then stretched by the next float above two. -/
def symmetric (word : UInt64) : Float :=
  (Float.ofBits ((0x3ff0000000000000 : UInt64) ||| (word >>> 12)) - 1.0) *
    Float.ofBits 0x4000000000000001 + -1.0

end ToneGraph.Synth
