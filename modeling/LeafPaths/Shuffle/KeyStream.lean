/-!
The words that a seed gives: a key of eight words is drawn from the seed by a permuted congruential
generator, and the words are the key stream of ChaCha with twelve rounds under that key.
-/

namespace LeafPaths.Shuffle

/-! ### The key of a seed -/

def advance (state : UInt64) : UInt64 := state * 6364136223846793005 + 11634580027462260723

def rotateLeft (w : UInt32) (n : UInt32) : UInt32 := w <<< n ||| w >>> (32 - n)

def rotateRight (w : UInt32) (n : UInt32) : UInt32 := w >>> n ||| w <<< (32 - n)

/-- The word that a state of the generator shows. -/
def output (state : UInt64) : UInt32 :=
  rotateRight (((state >>> 18) ^^^ state) >>> 27).toUInt32 (state >>> 59).toUInt32

/-- The words of the states after the given one. -/
def outputs : Nat → UInt64 → List UInt32
  | 0, _ => []
  | n + 1, state =>
    let next := advance state
    output next :: outputs n next

/-! ### Blocks -/

abbrev Block := Vector UInt32 16

def quarterRound (a b c d : Fin 16) (v : Block) : Block :=
  let half (v : Block) (m n : UInt32) : Block :=
    let v := v.set a (v[a] + v[b])
    let v := v.set d (rotateLeft (v[d] ^^^ v[a]) m)
    let v := v.set c (v[c] + v[d])
    v.set b (rotateLeft (v[b] ^^^ v[c]) n)
  half (half v 16 12) 8 7

/-- A round over the columns of the block and one over its diagonals. -/
def doubleRound (v : Block) : Block :=
  let v := quarterRound 0 4 8 12 v
  let v := quarterRound 1 5 9 13 v
  let v := quarterRound 2 6 10 14 v
  let v := quarterRound 3 7 11 15 v
  let v := quarterRound 0 5 10 15 v
  let v := quarterRound 1 6 11 12 v
  let v := quarterRound 2 7 8 13 v
  quarterRound 3 4 9 14 v

/-- The block before its rounds: constants, key, block number, and a stream number of zero. -/
def initial (key : List UInt32) (number : UInt64) : Block :=
  let k (i : Nat) := key.getD i 0
  #v[0x61707865, 0x3320646e, 0x79622d32, 0x6b206574, k 0, k 1, k 2, k 3, k 4, k 5, k 6, k 7,
    number.toUInt32, (number >>> 32).toUInt32, 0, 0]

def block (key : List UInt32) (number : UInt64) : Block :=
  let start := initial key number
  Vector.zipWith (· + ·) (Nat.repeat doubleRound 6 start) start

/-- Word `i` of the stream under a key. -/
def keyWord (key : List UInt32) (i : Nat) : UInt32 :=
  (block key (i / 16).toUInt64).get (Fin.ofNat 16 i)

/-- Word `i` of the stream of a seed. -/
def word (seed : UInt64) : Nat → UInt32 := keyWord (outputs 8 seed)

end LeafPaths.Shuffle
