import Pulseon.DoubleArith

/-!
# Singles

The `f32` that a renderer counts its pixels in, by its bits, with the operations
that the viewer uses. As for doubles, finite singles are multiples of the least
positive one, combined exactly and rounded.
-/

namespace Pulseon

structure F32 where
  bits : BitVec 32
deriving DecidableEq, Repr

namespace F32

def magnitude (x : F32) : Nat := x.bits.toNat % 2 ^ 31

def infinity : Nat := 0x7f800000

def isNan (x : F32) : Bool := decide (infinity < x.magnitude)

def isFinite (x : F32) : Bool := decide (x.magnitude < infinity)

def key (x : F32) : Int := if x.bits.msb then -(x.magnitude : Int) else x.magnitude

def lt (x y : F32) : Bool := !x.isNan && !y.isNan && decide (x.key < y.key)

def le (x y : F32) : Bool := !x.isNan && !y.isNan && decide (x.key ≤ y.key)

/-! ## Rounding -/

/-- The multiple of the least positive single that a magnitude stands for. -/
def units (magnitude : Nat) : Nat :=
  if magnitude < 2 ^ 23 then magnitude else (2 ^ 23 + magnitude % 2 ^ 23) * 2 ^ (magnitude / 2 ^ 23 - 1)

def ofMagnitude (negative : Bool) (magnitude : Nat) : F32 :=
  ⟨BitVec.ofNat 32 (if negative then 0x80000000 + magnitude else magnitude)⟩

def signedUnits (x : F32) : Int := if x.bits.msb then -(units x.magnitude : Int) else units x.magnitude

/-- The greatest magnitude of at most `n` units. -/
def below (n : Nat) : Nat :=
  let e := n.log2 - 23
  e * 2 ^ 23 + n / 2 ^ e

/-- The magnitude of `n / d` units. -/
def roundRatio (n d : Nat) : Nat := min (nearest (fun m => units m * d) (below (n / d)) n) infinity

def unitsPerOne : Nat := 2 ^ 149

/-! ## Operations -/

def nan : F32 := ⟨0x7fc00000⟩

def one : F32 := ⟨0x3f800000⟩

def neg (x : F32) : F32 := ofMagnitude (!x.bits.msb) x.magnitude

def add (x y : F32) : F32 :=
  if x.isNan || y.isNan then nan
  else if !x.isFinite then (if !y.isFinite && x.bits.msb != y.bits.msb then nan else x)
  else if !y.isFinite then y
  else
    let sum := x.signedUnits + y.signedUnits
    if sum = 0 then ofMagnitude (x.bits.msb && y.bits.msb) 0 else ofMagnitude (decide (sum < 0))
      (roundRatio sum.natAbs 1)

def sub (x y : F32) : F32 := x.add y.neg

def mul (x y : F32) : F32 :=
  let negative := x.bits.msb != y.bits.msb
  if x.isNan || y.isNan then nan
  else if !x.isFinite || !y.isFinite then
    if x.magnitude = 0 ∨ y.magnitude = 0 then nan else ofMagnitude negative infinity
  else ofMagnitude negative (roundRatio (units x.magnitude * units y.magnitude) unitsPerOne)

def div (x y : F32) : F32 :=
  let negative := x.bits.msb != y.bits.msb
  if x.isNan || y.isNan then nan
  else if !x.isFinite then if y.isFinite then ofMagnitude negative infinity else nan
  else if !y.isFinite then ofMagnitude negative 0
  else if y.magnitude = 0 then if x.magnitude = 0 then nan else ofMagnitude negative infinity
  else ofMagnitude negative (roundRatio (units x.magnitude * unitsPerOne) (units y.magnitude))

/-- `clamp` between bounds in order. -/
def clamp (x lower upper : F32) : F32 := if x.lt lower then lower else if upper.lt x then upper else x

/-- `round() as u32`: half away from zero, into the range. -/
def roundU32 (x : F32) : UInt32 :=
  if x.isNan || x.bits.msb then 0
  else UInt32.ofNat (min ((2 * units x.magnitude + unitsPerOne) / (2 * unitsPerOne)) 0xffffffff)

/-! ## Between the formats -/

def doubleExponent : Nat := 925

/-- The units of a double in one unit of a single. -/
def doubleUnits : Nat := 2 ^ doubleExponent

/-- `f64::from` -/
def toF64 (x : F32) : F64 :=
  if x.isNan then F64.nan
  else if !x.isFinite then F64.ofMagnitude x.bits.msb F64.infinity
  else F64.ofMagnitude x.bits.msb (F64.roundUnits (units x.magnitude * doubleUnits))

/-- `as f32` -/
def ofF64 (x : F64) : F32 :=
  if x.isNan then nan
  else if !x.isFinite then ofMagnitude x.bits.msb infinity
  else ofMagnitude x.bits.msb (roundRatio (F64.units x.magnitude) doubleUnits)

end F32

end Pulseon
