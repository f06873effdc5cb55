import WitnessedLog.Bytes

/-!
# The SHA-2 construction

The two hash functions in use differ only in their word size and constants: `Sha2.Variant` names
what differs, and `Sha2.digest` is the common construction.  The message is padded to whole blocks
of sixteen words, each block is stretched to one word per round, and the rounds stir it into a
chaining state of eight words.
-/

namespace WitnessedLog

namespace Sha2

/-- The chaining state. -/
structure State (W : Type) where
  a : W
  b : W
  c : W
  d : W
  e : W
  f : W
  g : W
  h : W

/-- The words of a state, in order. -/
def State.words {W : Type} (s : State W) : List W :=
  [s.a, s.b, s.c, s.d, s.e, s.f, s.g, s.h]

/-- What distinguishes one hash function of the family from another. -/
structure Variant (W : Type) where
  /-- bytes per word -/
  wordSize : Nat
  ofNat : Nat → W
  toNat : W → Nat
  /-- the diffusion functions of a round -/
  upperSigma0 : W → W
  upperSigma1 : W → W
  /-- the diffusion functions of the message schedule -/
  lowerSigma0 : W → W
  lowerSigma1 : W → W
  /-- one constant per round -/
  roundConstants : List W
  initial : State W

section

variable {W : Type} [Inhabited W] [Add W] [AndOp W] [XorOp W] [Complement W]

/-- The message, a one bit, zero bits, and the bit length in two words, filling whole blocks. -/
def pad (v : Variant W) (message : Bytes) : Bytes :=
  let block := 16 * v.wordSize
  let used := message.length + 1 + 2 * v.wordSize
  message ++ 0x80 :: List.replicate ((block - used % block) % block) 0
    ++ Bytes.bigEndian (2 * v.wordSize) (8 * message.length)

/-- Stretch the schedule by `count` words; the newest word comes first. -/
def stretch (v : Variant W) : (count : Nat) → List W → List W
  | 0, recent => recent
  | count + 1, recent =>
    let word := v.lowerSigma1 (recent.getD 1 default) + recent.getD 6 default
      + v.lowerSigma0 (recent.getD 14 default) + recent.getD 15 default
    stretch v count (word :: recent)

/-- The words that the rounds consume for one block. -/
def schedule (v : Variant W) (block : Bytes) : List W :=
  let words := (Bytes.pieces v.wordSize 16 block).map (fun w => v.ofNat (Bytes.ofBigEndian w))
  (stretch v (v.roundConstants.length - 16) words.reverse).reverse

/-- One round, with its constant and its scheduled word. -/
def round (v : Variant W) (s : State W) (input : W × W) : State W :=
  let chosen := (s.e &&& s.f) ^^^ (~~~s.e &&& s.g)
  let majority := (s.a &&& s.b) ^^^ (s.a &&& s.c) ^^^ (s.b &&& s.c)
  let first := s.h + v.upperSigma1 s.e + chosen + input.1 + input.2
  let second := v.upperSigma0 s.a + majority
  ⟨first + second, s.a, s.b, s.c, s.d + first, s.e, s.f, s.g⟩

/-- Stir one block into the chaining state. -/
def compress (v : Variant W) (s : State W) (block : Bytes) : State W :=
  let t := (v.roundConstants.zip (schedule v block)).foldl (round v) s
  ⟨s.a + t.a, s.b + t.b, s.c + t.c, s.d + t.d, s.e + t.e, s.f + t.f, s.g + t.g, s.h + t.h⟩

/-- The digest of a message: the words of the last chaining state. -/
def digest (v : Variant W) (message : Bytes) : Bytes :=
  let padded := pad v message
  let block := 16 * v.wordSize
  let last := (Bytes.pieces block (padded.length / block) padded).foldl (compress v) v.initial
  last.words.flatMap (fun word => Bytes.bigEndian v.wordSize (v.toNat word))

/-- A digest has eight words. -/
theorem length_digest
    (v : Variant W) (message : Bytes) :
    (digest v message).length = 8 * v.wordSize := by
  simp only [digest, State.words, List.flatMap_cons, List.flatMap_nil, List.length_append,
    Bytes.length_bigEndian, List.length_nil]
  omega

end

end Sha2

end WitnessedLog
