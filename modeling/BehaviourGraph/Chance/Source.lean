/-!
# Random sources

A source answers with a float between two bounds.  `Xoshiro` is the seeded source: four 64-bit words of
state, filled from one seed.  An agent's seed mixes a global seed with the agent's number, so agents of
one run draw from different streams.
-/

namespace BehaviourGraph

/-- A source of random floats.  `none` stands for a request that the source cannot serve. -/
class RandomSource (ρ : Type) where
  /-- A value between the bounds, and the source after the draw. -/
  range : Float32 → Float32 → ρ → Option (Float32 × ρ)

def percentMax : Float32 := 100.0

/-- True with the given probability in percent: one draw on the percentage scale decides. -/
def RandomSource.chance {ρ : Type} [RandomSource ρ] (percent : Float32) (r : ρ) : Option (Bool × ρ) :=
  (RandomSource.range 0.0 percentMax r).map fun (drawn, r) => (drawn ≤ percent, r)

structure Xoshiro where
  s0 : UInt64
  s1 : UInt64
  s2 : UInt64
  s3 : UInt64
  deriving DecidableEq, Repr

def rotateLeft (x count : UInt64) : UInt64 :=
  (x <<< count) ||| (x >>> (64 - count))

def rotateRight (x count : UInt32) : UInt32 :=
  (x >>> count) ||| (x <<< (32 - count))

def expandSeed (state : UInt64) : UInt64 :=
  state * 6364136223846793005 + 11634580027462260723

/-- The 32-bit word that a state of the seed expander gives. -/
def expandedWord (state : UInt64) : UInt32 :=
  rotateRight (((state >>> 18) ^^^ state) >>> 27).toUInt32 (state >>> 59).toUInt32

/-- Two 32-bit words as one, the low half first. -/
def joinWords (low high : UInt32) : UInt64 :=
  low.toUInt64 ||| (high.toUInt64 <<< 32)

namespace Xoshiro

/-- One 64-bit word from the seed expander, and its state after that. -/
def seedWord (state : UInt64) : UInt64 × UInt64 :=
  let low := expandSeed state
  let high := expandSeed low
  (joinWords (expandedWord low) (expandedWord high), high)

def ofSeed (seed : UInt64) : Xoshiro :=
  let (s0, state) := seedWord seed
  let (s1, state) := seedWord state
  let (s2, state) := seedWord state
  let (s3, _) := seedWord state
  ⟨s0, s1, s2, s3⟩

def next (x : Xoshiro) : UInt64 × Xoshiro :=
  let s2 := x.s2 ^^^ x.s0
  let s3 := x.s3 ^^^ x.s1
  (rotateLeft (x.s0 + x.s3) 23 + x.s0,
    ⟨x.s0 ^^^ s3, x.s1 ^^^ s2, s2 ^^^ (x.s1 <<< 17), rotateLeft s3 45⟩)

/-- The next 32 random bits: the upper half of the next 64. -/
def next32 (x : Xoshiro) : UInt32 × Xoshiro :=
  let (word, x) := x.next
  ((word >>> 32).toUInt32, x)

/-- The greatest fraction that a draw can give. -/
def greatestFraction : Float32 := 1.0 - .ofBits 0x34000000

/-- The greatest scale, from the given bits downwards, whose greatest draw does not exceed `hi`. -/
def fitScale (lo hi : Float32) : Nat → Float32
  | 0 => 0.0
  | bits + 1 =>
    let scale := Float32.ofBits (.ofNat (bits + 1))
    if hi < scale * greatestFraction + lo then fitScale lo hi bits else scale

/-- The 23 upper bits of a word as a fraction below one. -/
def fraction (word : UInt32) : Float32 :=
  Float32.ofBits ((word >>> 9) ||| 0x3f800000) - 1.0

/-- A value between two bounds.  Empty and unbounded intervals give the lower bound without a draw; an
interval whose scale overflows gives none. -/
def range (lo hi : Float32) (x : Xoshiro) : Option (Float32 × Xoshiro) :=
  if !lo.isFinite || !hi.isFinite || hi ≤ lo then some (lo, x)
  else
    let scale := (hi - lo) / greatestFraction
    if scale.isFinite then
      let fitted := fitScale lo hi scale.toBits.toNat
      let (word, x) := x.next32
      some (fraction word * fitted + lo, x)
    else none

instance : RandomSource Xoshiro := ⟨range⟩

end Xoshiro

/-- The odd constant that spreads agent numbers over 64 bits. -/
def mixingConstant : UInt64 := 0x9e3779b97f4a7c15

def agentSeed (globalSeed agent : UInt64) : UInt64 :=
  globalSeed ^^^ (agent * mixingConstant)

def Xoshiro.forAgent (globalSeed agent : UInt64) : Xoshiro :=
  .ofSeed (agentSeed globalSeed agent)

end BehaviourGraph
