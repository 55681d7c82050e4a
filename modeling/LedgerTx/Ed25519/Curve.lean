import LedgerTx.Bytes.BigEndian

namespace LedgerTx.Ed25519

/-! # The curve

The twisted Edwards curve `-x² + y² = 1 + d x² y²` over the field of `2 ^ 255 - 19` elements, and its
points as 32 bytes. -/

/-! ## The field -/

/-- The size of the field. -/
def fieldSize : Nat := (1 <<< 255) - 19

instance : @NeZero Nat ⟨0⟩ fieldSize := @NeZero.mk Nat ⟨0⟩ fieldSize (by decide)

/-- An element of the field. -/
abbrev Element := Fin fieldSize

namespace Element

/-- The power of an element. -/
def pow (base : Element) (exponent : Nat) : Element :=
  if exponent = 0 then 1
  else
    let rest := pow (base * base) (exponent / 2)
    if exponent % 2 = 1 then base * rest else rest
termination_by exponent
decreasing_by omega

/-- The inverse of an element; that of zero is zero. -/
def inv (a : Element) : Element :=
  pow a (fieldSize - 2)

/-- A square root of -1. -/
def rootOfMinusOne : Element :=
  pow 2 ((fieldSize - 1) / 4)

/-- The even square root of the quotient of `u` by `v`, if there is one. -/
def sqrtRatio? (u v : Element) : Option Element :=
  -- the candidate is a root of the quotient or of its negative, if either has one
  let v3 := v * v * v
  let root := u * v3 * pow (u * v3 * v3 * v) ((fieldSize - 5) / 8)
  let check := v * root * root
  let found :=
    if check = u then some root
    else if check = 0 - u then some (root * rootOfMinusOne)
    else none
  found.map fun r => if r.val % 2 = 1 then 0 - r else r

end Element

/-- The coefficient `d` of the curve. -/
def coefficient : Element :=
  0 - 121665 * Element.inv 121666

/-! ## Points -/

/-- A point as `(x / z, y / z)`, with `t = x y / z`. -/
structure Point where
  x : Element
  y : Element
  z : Element
  t : Element

namespace Point

/-- The point of the coordinates `x` and `y`. -/
def ofCoordinates (x y : Element) : Point :=
  ⟨x, y, 1, x * y⟩

/-- The neutral point. -/
def zero : Point :=
  ofCoordinates 0 1

/-- The sum of two points. -/
def add (p q : Point) : Point :=
  let a := (p.y - p.x) * (q.y - q.x)
  let b := (p.y + p.x) * (q.y + q.x)
  let c := 2 * p.t * coefficient * q.t
  let d := 2 * p.z * q.z
  let e := b - a
  let f := d - c
  let g := d + c
  let h := b + a
  ⟨e * f, g * h, f * g, e * h⟩

/-- The point opposite to a point. -/
def neg (p : Point) : Point :=
  ⟨0 - p.x, p.y, p.z, 0 - p.t⟩

/-- The multiple of a point. -/
def mul (n : Nat) (p : Point) : Point :=
  if n = 0 then zero
  else
    let rest := mul (n / 2) (add p p)
    if n % 2 = 1 then add p rest else rest
termination_by n
decreasing_by omega

/-! ## Points as bytes -/

/-- The number that the bytes spell, lowest byte first. -/
def littleEndian (bytes : List UInt8) : Nat :=
  BigEndian.toNat bytes.reverse

/-- The 32 bytes of a number, lowest byte first. -/
def toLittleEndian (n : Nat) : List UInt8 :=
  (BigEndian.ofNat 32 n).reverse

/-- The highest bit of 32 bytes. -/
def signBit : Nat := 1 <<< 255

/-- A point as bytes: `y`, and in the highest bit whether `x` is odd. -/
def encode (p : Point) : List UInt8 :=
  let inverse := p.z.inv
  let x := p.x * inverse
  let y := p.y * inverse
  toLittleEndian (y.val + x.val % 2 * signBit)

/-- The point that bytes spell.  A `y` of the size of the field or more counts modulo that size, and an
`x` of zero has either sign. -/
def decode? (bytes : List UInt8) : Option Point :=
  -- the highest bit is the sign of `x`, and all others are `y`
  let n := littleEndian bytes
  let y := Fin.ofNat fieldSize (n % signBit)
  let y2 := y * y
  (Element.sqrtRatio? (y2 - 1) (coefficient * y2 + 1)).map fun root =>
    ofCoordinates (if signBit ≤ n then 0 - root else root) y

/-- The base point, which has an even `x` and the `y` of 4/5. -/
def base : Point :=
  let y := 4 * Element.inv 5
  (decode? (toLittleEndian y.val)).getD zero

end Point

end LedgerTx.Ed25519
