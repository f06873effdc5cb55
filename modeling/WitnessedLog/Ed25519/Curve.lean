import WitnessedLog.Bytes

/-!
# The curve of Ed25519

The twisted Edwards curve `-x² + y² = 1 + d x² y²` over the integers modulo `2^255 - 19`.  Points are
kept in extended homogeneous coordinates, for which one addition law covers all pairs of points.
-/

namespace WitnessedLog

namespace Ed25519

/-- The order of the base field. -/
def fieldOrder : Nat := (1 <<< 255) - 19

-- The zero is the one that literals stand for, also where other zeros are known.
instance : @NeZero Nat Zero.ofOfNat0 fieldOrder where
  out := by decide

/-- An element of the base field. -/
abbrev Coordinate := Fin fieldOrder

/-- A power of a field element, for exponents below `2^256`. -/
def power (x : Coordinate) (exponent : Nat) : Coordinate :=
  (List.range 256).foldr
    (fun bit result => if exponent.testBit bit then result * result * x else result * result) 1

/-- The inverse of a field element other than zero. -/
def inverse (x : Coordinate) : Coordinate :=
  power x (fieldOrder - 2)

/-- The coefficient of the curve equation. -/
def curveConstant : Coordinate :=
  Fin.ofNat fieldOrder
    37095705934669439343138083508754565189542113879843219016388785533085940283555

/-- A square root of minus one. -/
def rootOfMinusOne : Coordinate :=
  Fin.ofNat fieldOrder
    19681161376707505956807079304988542015446066515923890162744021073123829784752

/-- A point `(x / z, y / z)` of the curve, with `t = x y / z`. -/
structure Point where
  x : Coordinate
  y : Coordinate
  z : Coordinate
  t : Coordinate

namespace Point

/-- The neutral element of the group. -/
def zero : Point := ⟨0, 1, 1, 0⟩

/-- The point with the given affine coordinates. -/
def ofAffine (x y : Coordinate) : Point := ⟨x, y, 1, x * y⟩

/-- The base point. -/
def base : Point :=
  ofAffine
    (Fin.ofNat fieldOrder
      15112221349535400772501151409588531511454012693041857206046113283949847762202)
    (Fin.ofNat fieldOrder
      46316835694926478169428394003475163141307993866256225615783033603165251855960)

/-- The sum of two points. -/
def add (p q : Point) : Point :=
  let a := (p.y - p.x) * (q.y - q.x)
  let b := (p.y + p.x) * (q.y + q.x)
  let c := 2 * curveConstant * p.t * q.t
  let d := 2 * p.z * q.z
  ⟨(b - a) * (d - c), (d + c) * (b + a), (d - c) * (d + c), (b - a) * (b + a)⟩

/-- The inverse of a point. -/
def neg (p : Point) : Point :=
  ⟨-p.x, p.y, p.z, -p.t⟩

/-- The multiple of a point by a scalar below `2^256`. -/
def multiple (p : Point) (scalar : Nat) : Point :=
  (List.range 256).foldr
    (fun bit result =>
      let double := result.add result
      if scalar.testBit bit then double.add p else double) zero

/-- The 32 bytes of a point: its `y` coordinate, least significant byte first, with the parity of
its `x` coordinate as the top bit. -/
def encode (p : Point) : Bytes :=
  let scale := inverse p.z
  let x := p.x * scale
  let y := p.y * scale
  (Bytes.bigEndian 32 (y.val + (x.val % 2) <<< 255)).reverse

/-- The point that 32 bytes stand for, if there is one.  The `y` coordinate is reduced modulo the
field order, and a set sign bit is accepted also where `x` is zero. -/
def decode? (bytes : Bytes) : Option Point :=
  let number := Bytes.ofLittleEndian bytes
  let y : Coordinate := Fin.ofNat fieldOrder (number % (1 <<< 255))
  let odd := (number >>> 255) % 2
  let u := y * y - 1
  let v := curveConstant * y * y + 1
  let v3 := v * v * v
  let x := u * v3 * power (u * v3 * v3 * v) ((fieldOrder - 5) / 8)
  let square := v * x * x
  let root := if square = u then some x
    else if square = -u then some (x * rootOfMinusOne)
    else none
  root.map (fun x => ofAffine (if x.val % 2 = odd then x else -x) y)

end Point

end Ed25519

end WitnessedLog
